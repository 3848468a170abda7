import Backstep.Proofs.Workbench.Session
import Backstep.Workbench.Console
/-!
# What can go wrong at the console

Nothing that is typed makes the workbench reach past the end of memory, run out of addresses or
begin an instruction while another one waits. What is left is the showing of names: a name that
hides more characters than it takes columns fits in no cell of a table, and `vars` and `mem` fail
over the first such name. `fails_iff_unmeasured` says that this is all, for every console that any
session leads to.
-/

namespace Backstep.Workbench

namespace Panel

/-- No cell of a table can hold the name. -/
def unmeasured (name : String) : Bool := Text.width name.toList < 0

/-- The names of the variables, in the order of the addresses. -/
def variableNames (m : Machine) : List String :=
  (m.program.elim [] (·.vars.values)).map (·.name)

/-- The name of the variable at an address, or no text. -/
def nameAt (m : Machine) (a : Address) : String :=
  (m.program.bind (·.vars.find? a)).elim "" (·.name)

theorem nameCell_of_unmeasured {name : String} (h : unmeasured name = true) :
    nameCell name = .error (.fault (.unmeasured name)) := by
  rw [unmeasured, decide_eq_true_eq] at h
  rw [nameCell, if_neg (by omega)]

theorem nameCell_of_measured {name : String} (h : unmeasured name = false) :
    nameCell name = .ok name := by
  rw [unmeasured, decide_eq_false_iff_not] at h
  rw [nameCell, if_pos (by omega)]

end Panel

open Panel (unmeasured)

/-- The only fault of the answer, apart from the length of a run, is over the first of the names
that no cell can hold. -/
def FailsOver {α : Type} (names : List String) (r : Except Failure α) : Prop :=
  ∀ fault, fault ≠ .unfinished →
    (r = .error (.fault fault) ↔
      ∃ name, names.find? unmeasured = some name ∧ fault = .unmeasured name)

namespace FailsOver

variable {α β : Type} {names : List String}

theorem of_unfinished {r : Except Failure α} (h : ∀ f, r = .error (.fault f) → f = .unfinished) :
    FailsOver [] r := by
  intro fault hfault
  constructor
  · intro hr
    exact absurd (h fault hr) hfault
  · rintro ⟨name, hname, -⟩
    cases hname

theorem of_faultless {r : Except Failure α} (h : Faultless r) : FailsOver [] r :=
  of_unfinished h.unfinished

theorem ok_of_none {a : α} (h : names.find? unmeasured = none) :
    FailsOver names (.ok a : Except Failure α) := by
  intro fault _
  constructor
  · intro hr
    cases hr
  · rintro ⟨name, hname, -⟩
    rw [h] at hname
    cases hname

theorem error_of_some {name : String} (h : names.find? unmeasured = some name) :
    FailsOver names (.error (.fault (.unmeasured name)) : Except Failure α) := by
  intro fault _
  constructor
  · intro hr
    cases hr
    exact ⟨name, h, rfl⟩
  · rintro ⟨name', hname, rfl⟩
    rw [h] at hname
    cases hname
    rfl

theorem congr {r : Except Failure α} {s : Except Failure β} (h : FailsOver names r)
    (hs : ∀ fault, s = .error (.fault fault) ↔ r = .error (.fault fault)) : FailsOver names s := by
  intro fault hfault
  exact (hs fault).trans (h fault hfault)

theorem map {r : Except Failure α} (h : FailsOver names r) (g : α → β) :
    FailsOver names (r.map g) := by
  apply h.congr
  intro fault
  cases r with
  | ok a =>
    constructor
    · intro hr
      cases hr
    · intro hr
      cases hr
  | error failure =>
    constructor
    · rintro ⟨⟩
      rfl
    · rintro ⟨⟩
      rfl

/-- Rows are made one after another, so the first name that fits in no cell ends the making. -/
theorem mapM {name : α → String} {f : α → Except Failure β} {l : List α}
    (hgood : ∀ a ∈ l, unmeasured (name a) = false → ∃ b, f a = .ok b)
    (hbad : ∀ a ∈ l, unmeasured (name a) = true → f a = .error (.fault (.unmeasured (name a)))) :
    FailsOver (l.map name) (l.mapM f) := by
  suffices hrows : (∃ bs, l.mapM f = .ok bs ∧ (l.map name).find? unmeasured = none) ∨
      ∃ n, l.mapM f = .error (.fault (.unmeasured n)) ∧
        (l.map name).find? unmeasured = some n by
    obtain ⟨bs, hok, hnone⟩ | ⟨n, herror, hsome⟩ := hrows
    · rw [hok]
      exact ok_of_none hnone
    · rw [herror]
      exact error_of_some hsome
  induction l with
  | nil => exact .inl ⟨[], rfl, rfl⟩
  | cons a l ih =>
    rw [List.mapM_cons, List.map_cons]
    cases hname : unmeasured (name a) with
    | true =>
      rw [hbad a List.mem_cons_self hname, List.find?_cons_of_pos hname]
      exact .inr ⟨name a, rfl, rfl⟩
    | false =>
      obtain ⟨b, hb⟩ := hgood a List.mem_cons_self hname
      rw [hb, List.find?_cons_of_neg (by simp [hname])]
      obtain ⟨bs, hok, hnone⟩ | ⟨n, herror, hsome⟩ :=
        ih (fun a ha => hgood a (List.mem_cons_of_mem _ ha))
          fun a ha => hbad a (List.mem_cons_of_mem _ ha)
      · rw [hok]
        exact .inl ⟨b :: bs, rfl, hnone⟩
      · rw [herror]
        exact .inr ⟨n, rfl, hsome⟩

end FailsOver

/-! ### Panels -/

namespace Panel

theorem declarations_failsOver {m : Machine} (h : m.Bounded) :
    FailsOver (variableNames m) (declarations m) := by
  have hvalue : ∀ v ∈ m.program.elim [] (·.vars.values), ∃ w, m.value v = .ok w := by
    intro v hv
    cases hprogram : m.program with
    | none =>
      rw [hprogram] at hv
      cases hv
    | some p =>
      rw [hprogram] at hv
      obtain ⟨e, he, rfl⟩ := List.mem_map.1 hv
      have hholds : m.core.memory.Holds e.2.address := (h.program p hprogram).declared e he
      obtain ⟨w, hread⟩ := hholds.read?
      exact ⟨Word.narrow w e.2.size, by
        simp only [Machine.value, Variable.value?, hread, Option.map_some]⟩
  unfold declarations variableNames
  apply FailsOver.map
  apply FailsOver.mapM
  · intro v hv hname
    obtain ⟨w, hw⟩ := hvalue v hv
    rw [nameCell_of_measured hname, hw]
    exact ⟨_, rfl⟩
  · intro v _ hname
    rw [nameCell_of_unmeasured hname]
    rfl

theorem words_failsOver {m : Machine} {addresses : List Address}
    (h : ∀ a ∈ addresses, m.core.memory.Holds a) :
    FailsOver (addresses.map (nameAt m)) (words m addresses) := by
  unfold words
  apply FailsOver.map
  apply FailsOver.mapM
  all_goals
    intro a ha hname
    obtain ⟨w, hload⟩ := Core.load_of_holds (h a ha)
    rw [hload]
    simp only [bind, Except.bind]
  · have hcell := nameCell_of_measured hname
    unfold nameAt at hcell
    rw [hcell]
    exact ⟨_, rfl⟩
  · have hcell := nameCell_of_unmeasured hname
    unfold nameAt at hcell
    rw [hcell]
    rfl

end Panel

/-! ### Commands -/

theorem faultless_readNumber (cs : List Char) : Faultless (readNumber cs) := by
  unfold readNumber
  split
  · exact .ok
  · exact .problem

/-- Words that are asked for from a start are shown only if all of them lie inside memory. -/
theorem inside_of_wordsFrom? {memorySize : Nat} {start count : Word} {addresses : List Address}
    (h : wordsFrom? memorySize start count = some addresses) :
    ∀ a ∈ addresses, a.toNat + 8 ≤ memorySize := by
  unfold wordsFrom? at h
  simp only at h
  split at h
  · rename_i hfits
    obtain ⟨-, hstart, hlast⟩ := hfits
    have hstart' := Word.address_le_of_fits hstart
    have hlast' := Word.address_le_of_fits hlast
    generalize lastAddress start count = last at h hlast'
    cases h
    intro a ha
    obtain ⟨k, hk, rfl⟩ := List.mem_map.1 ha
    have hbound := List.mem_range.1 hk
    have hlt := last.address.toNat_lt
    have hlt' := start.address.toNat_lt
    rw [UInt64.toNat_add, UInt64.toNat_ofNat']
    omega
  · cases h

namespace Session

open Panel (variableNames nameAt)

/-- The names that a command is to show in a table. -/
def namesShown (s : Session) (arguments : List (List Char)) : Command → List String
  | .vars => variableNames s.machine
  | .mem =>
    match s.wordsToShow arguments with
    | .ok addresses => addresses.map (nameAt s.machine)
    | .error _ => []
  | _ => []

/-- The words that are asked for lie inside memory, and asking is no fault. -/
structure Shows (s : Session) (r : Except Failure (List Address)) : Prop where
  faultless : Faultless r
  holds : ∀ addresses, r = .ok addresses → ∀ a ∈ addresses, s.machine.core.memory.Holds a

theorem Shows.ok {s : Session} {addresses : List Address}
    (h : ∀ a ∈ addresses, s.machine.core.memory.Holds a) : s.Shows (.ok addresses) := by
  constructor
  · exact .ok
  · intro addresses' hok
    cases hok
    exact h

theorem Shows.problem {s : Session} {p : Problem} : s.Shows (.error (.problem p)) := by
  constructor
  · exact .problem
  · intro addresses hok
    cases hok

theorem Shows.bind {s : Session} {r : Except Failure Word}
    {g : Word → Except Failure (List Address)}
    (hr : Faultless r) (hg : ∀ w, s.Shows (g w)) : s.Shows (r >>= g) := by
  constructor
  · exact hr.bind fun w _ => (hg w).faultless
  · intro addresses hok
    cases r with
    | error failure => cases hok
    | ok w => exact (hg w).holds addresses hok

theorem Safe.holds {s : Session} (h : s.Safe) {a : Address} (ha : a.toNat + 8 ≤ s.memorySize) :
    s.machine.core.memory.Holds a := by
  rw [Memory.Holds, h.size]
  exact ha

theorem Safe.shows_wordsFrom? {s : Session} (h : s.Safe) (start count : Word) :
    s.Shows (match wordsFrom? s.memorySize start count with
      | some addresses => pure addresses
      | none => throw (.problem { cause := .memoryEnd s.memorySize })) := by
  cases hwords : wordsFrom? s.memorySize start count with
  | some addresses => exact .ok fun a ha => h.holds (inside_of_wordsFrom? hwords a ha)
  | none => exact .problem

theorem Safe.wordsToShow {s : Session} (h : s.Safe) (arguments : List (List Char)) :
    s.Shows (s.wordsToShow arguments) := by
  unfold Session.wordsToShow
  cases arguments with
  | nil => exact .ok fun a ha => h.holds (h.notable a ha)
  | cons start rest =>
    apply Shows.bind (faultless_readNumber start)
    intro start
    cases rest with
    | nil => exact h.shows_wordsFrom? start 1
    | cons count _ =>
      exact .bind (faultless_readNumber count) fun count => h.shows_wordsFrom? start count

theorem faultless_executionsToShow (arguments : List (List Char)) :
    Faultless (executionsToShow arguments) := by
  cases arguments with
  | nil => exact .ok
  | cons count _ => exact (faultless_readNumber count).bind fun _ _ => .ok

/-- What becomes of the session, and over which names its answer can fail. -/
structure Settles (o : Outcome) (names : List String) : Prop where
  safe : o.session.Safe
  fails : FailsOver names o.answer

theorem settles_afterRun {r : Reply Session Event} (hsafe : r.state.Safe)
    (hunfinished : ∀ f, r.answer = .error (.fault f) → f = .unfinished) :
    Settles (afterRun r) [] := by
  refine ⟨⟨?_, hsafe.size, hsafe.written, hsafe.named⟩, FailsOver.of_unfinished ?_⟩
  · exact ⟨hsafe.machine.program, hsafe.machine.past, hsafe.machine.parked⟩
  · intro f hf
    apply hunfinished f
    simp only [afterRun] at hf
    split at hf <;> simp_all

theorem settles_showing {α : Type} {r : Reply Session α} (hsafe : r.state.Safe)
    (hfaultless : Faultless r.answer) (text : Session → String) : Settles (showing r text) [] :=
  ⟨hsafe, (FailsOver.of_faultless hfaultless).map _⟩

theorem settles_print {s : Session} (h : s.Safe) {names : List String}
    {text : Except Failure String} (hfails : FailsOver names text) : Settles (s.print text) names :=
  ⟨h, hfails.map _⟩

theorem Safe.obey {s : Session} (h : s.Safe) (w : Surroundings) (arguments : List (List Char))
    (command : Command) :
    Settles (s.obey w arguments command) (s.namesShown arguments command) := by
  have hmachine : ∀ {r : Reply Machine Unit}, Machine.Sound s.machine r →
      Settles (showing (s.following r) registers) [] := by
    intro r hr
    obtain ⟨hsafe, hfaultless⟩ := h.following hr
    exact settles_showing hsafe hfaultless _
  cases command with
  | step | next | run =>
    obtain ⟨hsafe, hunfinished⟩ := h.drive w _
    exact settles_afterRun hsafe hunfinished
  | undo => exact hmachine h.machine.undo
  | back => exact hmachine h.machine.undoStatement
  | reset => exact hmachine h.machine.reset
  | clear =>
    obtain ⟨hsafe, hfaultless⟩ := h.following (h.machine.access (.inl rfl))
    exact settles_showing hsafe hfaultless _
  | regs | ops | help => exact settles_print h (.of_faultless .ok)
  | mem =>
    obtain ⟨hfaultless, hholds⟩ := h.wordsToShow arguments
    refine settles_print h ?_
    simp only [namesShown]
    cases hwords : s.wordsToShow arguments with
    | error failure =>
      rw [hwords] at hfaultless
      exact .of_faultless (hfaultless.bind fun _ hok => by cases hok)
    | ok addresses => exact (Panel.words_failsOver (hholds addresses hwords)).map _
  | vars => exact settles_print h ((Panel.declarations_failsOver h.machine).map _)
  | list =>
    refine settles_print h (.of_faultless ?_)
    split
    · exact .ok
    · exact .problem
  | hist =>
    apply settles_print h
    exact .of_faultless ((faultless_executionsToShow arguments).bind fun _ _ => .ok)
  | load =>
    cases arguments with
    | nil => exact settles_print h (.of_faultless .problem)
    | cons file _ =>
      obtain ⟨hsafe, hfaultless⟩ := h.loadFile w (String.ofList file)
      exact settles_showing hsafe hfaultless _
  | quit => exact ⟨h, .of_faultless .ok⟩

end Session

/-! ### The console -/

namespace Console

/-- The names that what is typed is to show in a table. -/
def namesShown (c : Console) (typed : Typed) : List String :=
  match c.prompt, typed with
  | .command, .line line =>
    match Request.ofLine line with
    | .command known arguments => c.session.namesShown arguments known
    | _ => []
  | _, _ => []

/-- A console that comes of some session, whatever the surroundings are at each prompt. -/
inductive Reached (memorySize : Nat) (file? : Option String) : Console → Prop
  | start {w : Surroundings} {c : Console} {response : Response}
      (h : start w memorySize file? = .ok ⟨some c, response⟩) : Reached memorySize file? c
  | respond {w : Surroundings} {c c' : Console} {typed : Typed} {response : Response}
      (hc : Reached memorySize file? c) (h : c.respond w typed = .ok ⟨some c', response⟩) :
      Reached memorySize file? c'

/-- A turn goes on with a safe session or is a fault over one of the names. -/
structure Settled (names : List String) (r : Except Fault Turn) : Prop where
  fails : ∀ fault, fault ≠ .unfinished →
    (r = .error fault ↔ ∃ name, names.find? unmeasured = some name ∧ fault = .unmeasured name)
  safe : ∀ c response, r = .ok ⟨some c, response⟩ → c.session.Safe

theorem settled_ofOutcome {o : Outcome} {names : List String} (h : Session.Settles o names)
    (remembered : List String) : Settled names (ofOutcome o remembered) := by
  constructor
  · intro fault hfault
    rw [← h.fails fault hfault]
    unfold ofOutcome
    split <;> rename_i hanswer <;> simp [hanswer]
  · intro c response hturn
    unfold ofOutcome at hturn
    split at hturn <;> cases hturn <;> exact h.safe

theorem settled_ok {turn : Turn} (h : ∀ c, turn.console = some c → c.session.Safe) :
    Settled [] (.ok turn) := by
  constructor
  · intro fault _
    constructor
    · intro hr
      cases hr
    · rintro ⟨name, hname, -⟩
      cases hname
  · intro c response hturn
    cases hturn
    exact h c rfl

theorem settled_respond {c : Console} (h : c.session.Safe) (w : Surroundings) (typed : Typed) :
    Settled (c.namesShown typed) (c.respond w typed) := by
  have hsame : ∀ asks response, Settled [] (.ok ⟨some { c with asks }, response⟩) := by
    intro asks response
    apply settled_ok
    intro c' hc'
    cases hc'
    exact h
  have hleft : ∀ response, Settled [] (.ok ⟨none, response⟩) := by
    intro response
    apply settled_ok
    intro c' hc'
    cases hc'
  unfold respond namesShown
  cases c.prompt with
  | command =>
    cases typed with
    | line line =>
      simp only [command]
      cases Request.ofLine line with
      | nothing => exact hsame _ _
      | unknown word => exact hsame _ _
      | command known arguments => exact settled_ofOutcome (h.obey w arguments known) _
    | interrupt | quit | endOfInput => exact hleft _
  | value =>
    cases typed with
    | line line =>
      simp only [number]
      cases hread : readNumber line.toList with
      | error failure =>
        cases failure with
        | problem p => exact hsame _ _
        | fault f => exact absurd hread (faultless_readNumber _ f)
      | ok value =>
        simp only
        generalize hgiven : c.session.following (c.session.machine.access (.send .input value))
          = given
        have hsafe : given.state.Safe :=
          hgiven ▸ (h.following (h.machine.access (.inr ⟨.input, value, rfl⟩))).1
        obtain ⟨hsafe', hunfinished⟩ := hsafe.drive w given.state.pace
        have hrun := Session.settles_afterRun hsafe' hunfinished
        refine settled_ofOutcome ?_ _
        exact ⟨hrun.safe, hrun.fails⟩
    | interrupt => exact hsame _ _
    | quit | endOfInput => exact hleft _

theorem start_ok (w : Surroundings) (memorySize : Nat) (file? : Option String) :
    ∃ turn, start w memorySize file? = .ok turn ∧
      ∀ c, turn.console = some c → c.session.Safe := by
  have hnew := Session.Safe.ofSize memorySize
  unfold start
  cases file? with
  | none =>
    refine ⟨_, rfl, ?_⟩
    intro c hc
    cases hc
    exact hnew
  | some file =>
    obtain ⟨hsafe, hfaultless⟩ := hnew.loadFile w file
    have hsettled := settled_ofOutcome
      (Session.settles_showing hsafe hfaultless fun _ => "") []
    have hanswer : Faultless (Session.showing ((Session.ofSize memorySize).loadFile w file)
        fun _ => "").answer := hfaultless.map _
    cases hturn : ofOutcome (Session.showing ((Session.ofSize memorySize).loadFile w file)
        fun _ => "") [] with
    | ok turn =>
      refine ⟨turn, hturn, ?_⟩
      intro c hc
      apply hsettled.safe c turn.response
      rw [hturn, ← hc]
    | error fault =>
      unfold ofOutcome at hturn
      split at hturn
      · cases hturn
      · cases hturn
      · cases hturn
      · rename_i hfault
        exact absurd hfault (hanswer _)

theorem Reached.safe {memorySize : Nat} {file? : Option String} {c : Console}
    (h : Reached memorySize file? c) : c.session.Safe := by
  induction h with
  | @start w c response hstart =>
    obtain ⟨turn, hturn, hsafe⟩ := start_ok w memorySize file?
    rw [hstart] at hturn
    cases hturn
    exact hsafe c rfl
  | respond _ hturn ih => exact (settled_respond ih _ _).safe _ _ hturn

/-- A session always starts, and whatever is typed later is answered, if it does not run without end
and shows no name that fits in no cell of a table. -/
theorem fails_iff_unmeasured (w : Surroundings) (memorySize : Nat) (file? : Option String) :
    (∃ turn, start w memorySize file? = .ok turn) ∧
      ∀ c, Reached memorySize file? c → ∀ typed fault, fault ≠ .unfinished →
        (c.respond w typed = .error fault ↔
          ∃ name, (c.namesShown typed).find? unmeasured = some name ∧
            fault = .unmeasured name) := by
  constructor
  · obtain ⟨turn, hturn, -⟩ := start_ok w memorySize file?
    exact ⟨turn, hturn⟩
  · intro c hc typed
    exact (settled_respond hc.safe w typed).fails

/-- The mark of a style sequence without its end, and four pairs of letters that are joined: the
pairs take a column each, but every letter of them is hidden. -/
def hidingName : String := "\x1b[\u0644\u0627\u0644\u0627\u0644\u0627\u0644\u0627"

/-- A file that declares a variable of this name. -/
def hidingFile : Surroundings where
  read _ := .ok (".var " ++ hidingName ++ " 0 8 1.1-1.2\n* 1: NOOP()\n")
  patience := 9

theorem fails_iff_unmeasured_hidingName :
    ∃ c, Reached 64 (some "a.lst") c ∧
      c.respond hidingFile (.line "vars") = .error (.unmeasured hidingName) := by
  have hshown : ((start hidingFile 64 (some "a.lst")).toOption.bind (·.console)).map
      (fun c => (c.namesShown (.line "vars")).find? unmeasured) = some (some hidingName) := by
    decide +kernel
  obtain ⟨c, hc, hname⟩ := Option.map_eq_some_iff.1 hshown
  obtain ⟨turn, hturn, hconsole⟩ := Option.bind_eq_some_iff.1 hc
  have hstart : start hidingFile 64 (some "a.lst") = .ok ⟨some c, turn.response⟩ := by
    cases hresult : start hidingFile 64 (some "a.lst") with
    | error fault =>
      rw [hresult] at hturn
      cases hturn
    | ok turn' =>
      rw [hresult] at hturn
      cases hturn
      rw [← hconsole]
  have hreached : Reached 64 (some "a.lst") c := .start hstart
  have hfails := (fails_iff_unmeasured hidingFile 64 (some "a.lst")).2 c hreached (.line "vars")
    (.unmeasured hidingName) (by decide)
  exact ⟨c, hreached, hfails.2 ⟨hidingName, hname, rfl⟩⟩

end Console

end Backstep.Workbench
