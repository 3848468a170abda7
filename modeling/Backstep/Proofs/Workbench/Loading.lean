import Backstep.Proofs.Machine.Event
import Backstep.Proofs.Workbench.Prompt
/-!
# Loading

A `load` starts over or does nothing. If it fails, the console stays exactly as it is. If it
succeeds, little is left of what was done before: the pace of the last run, and how often the
counter has changed. A session uses the pace only to go on with a run that came to wait, and the
number only to tell when Ctrl-C comes. So nobody can tell it from a session that was newly started
with the file, if Ctrl-C does not come again.

This compares two conversations in the same surroundings. `Session.Twins` is what their sessions
have in common, and `Console.Twins` adds that the paces agree where a number may be asked for. Each
turn keeps them twins and answers alike, and so does everything that is said in any number of turns.
-/

namespace Backstep.Workbench

/-- The same surroundings without Ctrl-C. -/
def Surroundings.undisturbed (w : Surroundings) : Surroundings :=
  { w with interrupts := fun _ => false }

/-- Ctrl-C does not come after more than so many changes of the counter. -/
def Surroundings.Calm (w : Surroundings) (moves : Nat) : Prop :=
  ∀ n, moves < n → w.interrupts n = false

theorem Surroundings.interruptsWithin_undisturbed (w : Surroundings) (before after : Nat) :
    w.undisturbed.interruptsWithin before after = false :=
  List.any_eq_false.2 fun _ _ => Bool.false_ne_true

/-! ### What is said in so many turns -/

namespace Transcript

/-- What is said in so many turns, each in surroundings of its own, if the user does not leave
before. -/
def ofTurns (c : Console) : List (Surroundings × Typed) → Except Fault Transcript
  | [] => .ok []
  | (w, typed) :: rest => do
    let turn ← c.respond w typed
    let entries ← match turn.console with
      | some c => ofTurns c rest
      | none => pure []
    return ⟨some (c.prompt, typed), turn.response⟩ :: entries

/-- A transcript is what is said in its turns. -/
theorem goOn_eq_ofTurns (w : Surroundings) (c : Console) (typed : List Typed) :
    goOn w c typed = ofTurns c ((typed ++ [Typed.endOfInput]).map fun typed => (w, typed)) := by
  induction typed generalizing c with
  | nil =>
    simp only [goOn, List.nil_append, List.map_cons, List.map_nil, ofTurns]
    congr 1
    funext turn
    cases turn.console <;> rfl
  | cons typed rest ih =>
    simp only [goOn, List.cons_append, List.map_cons, ofTurns]
    congr 1
    funext turn
    cases turn.console with
    | none => rfl
    | some c => simp only [ih c]

theorem ofTurns_cons_of_goesOn {c c' : Console} {w : Surroundings} {typed : Typed}
    {response : Response} (hturn : c.respond w typed = .ok ⟨some c', response⟩)
    (rest : List (Surroundings × Typed)) :
    ofTurns c ((w, typed) :: rest)
      = (⟨some (c.prompt, typed), response⟩ :: ·) <$> ofTurns c' rest := by
  simp only [ofTurns, hturn]
  rfl

end Transcript

/-! ### Twins -/

namespace Session

/-- The sessions differ at most in what they remember of earlier runs: the pace of the last one and
how often the counter has changed. -/
structure Twins (s t : Session) : Prop where
  memorySize : s.memorySize = t.memorySize
  machine : s.machine = t.machine
  written : s.written = t.written
  named : s.named = t.named

/-- The replies are alike, and the sessions that they leave are twins. -/
structure TwinReplies {α : Type} (r r' : Reply Session α) : Prop where
  state : r.state.Twins r'.state
  answer : r.answer = r'.answer
  signals : r.signals = r'.signals

/-- The outcomes are alike, and the sessions that they leave are twins. They have the same pace if a
run came to wait. -/
structure TwinOutcomes (o o' : Outcome) : Prop where
  session : o.session.Twins o'.session
  printed : o.printed = o'.printed
  shown : o.shown = o'.shown
  answer : o.answer = o'.answer
  signals : o.signals = o'.signals
  pace : o.answer = .ok (.goOn true) → o.session.pace = o'.session.pace

namespace Twins

variable {s t : Session}

theorem exists_eq (h : s.Twins t) : ∃ pace moves, t = { s with pace, moves } := by
  obtain ⟨hsize, hmachine, hwritten, hnamed⟩ := h
  exact ⟨t.pace, t.moves, by rw [hsize, hmachine, hwritten, hnamed]⟩

theorem following {α : Type} (h : s.Twins t) (r : Reply Machine α) :
    TwinReplies (s.following r) (t.following r) := by
  obtain ⟨pace, moves, rfl⟩ := h.exists_eq
  exact ⟨⟨rfl, rfl, rfl, rfl⟩, rfl, rfl⟩

/-- Without Ctrl-C it makes no difference to a run how often the counter has changed before. -/
theorem driveOn (h : s.Twins t) (hpace : s.pace = t.pace) (w : Surroundings) (pace : Pace)
    (patience : Nat) (sent : Array Signal) :
    let r := Session.driveOn w.undisturbed pace patience s false sent
    let r' := Session.driveOn w.undisturbed pace patience t false sent
    TwinReplies r r' ∧ r.state.pace = r'.state.pace := by
  induction patience generalizing s t sent with
  | zero => exact ⟨⟨h, rfl, rfl⟩, hpace⟩
  | succ patience ih =>
    have hsame : t.misplacedInput? = s.misplacedInput? := by
      rw [misplacedInput?_eq, misplacedInput?_eq, h.machine, h.memorySize]
    cases hplaced : s.misplacedInput? with
    | some p =>
      simp only [Session.driveOn, hsame, hplaced, Bool.false_eq_true, if_false]
      exact ⟨⟨h, rfl, rfl⟩, hpace⟩
    | none =>
      have hplaced' := hsame.trans hplaced
      obtain ⟨hstate, -, -⟩ := h.following s.machine.step
      by_cases hgoesOn : s.machine.GoesOn pace
      · rw [driveOn_of_goesOn hplaced hgoesOn, driveOn_of_goesOn hplaced' (h.machine ▸ hgoesOn),
          Surroundings.interruptsWithin_undisturbed, Surroundings.interruptsWithin_undisturbed,
          ← h.machine]
        exact ih hstate hpace _
      · rw [driveOn_of_not_goesOn hplaced hgoesOn,
          driveOn_of_not_goesOn hplaced' (h.machine ▸ hgoesOn), ← h.machine]
        exact ⟨⟨hstate, rfl, rfl⟩, hpace⟩

/-- Without Ctrl-C twins are driven alike. -/
theorem drive (h : s.Twins t) (w : Surroundings) (pace : Pace) :
    let r := s.drive w.undisturbed pace
    let r' := t.drive w.undisturbed pace
    TwinReplies r r' ∧ r.state.pace = r'.state.pace := by
  have hpaced : Twins { s with pace } { t with pace } :=
    ⟨h.memorySize, h.machine, h.written, h.named⟩
  exact hpaced.driveOn rfl w pace _ _

theorem loadFile (h : s.Twins t) (w : Surroundings) (file : String) :
    TwinReplies (s.loadFile w file) (t.loadFile w file) := by
  obtain ⟨pace, moves, rfl⟩ := h.exists_eq
  unfold Session.loadFile
  split
  · exact ⟨h, rfl, rfl⟩
  · unfold load
    split
    · exact ⟨h, rfl, rfl⟩
    · simp only
      split
      · exact ⟨h, rfl, rfl⟩
      · exact ⟨⟨rfl, rfl, rfl, rfl⟩, rfl, rfl⟩

end Twins

theorem TwinOutcomes.behind {o o' : Outcome} (h : TwinOutcomes o o') (sent : List Signal) :
    TwinOutcomes { o with signals := sent ++ o.signals } { o' with signals := sent ++ o'.signals }
    where
  session := h.session
  printed := h.printed
  shown := h.shown
  answer := h.answer
  signals := congrArg (sent ++ ·) h.signals
  pace := h.pace

theorem TwinReplies.afterRun {r r' : Reply Session Event} (h : TwinReplies r r')
    (hpace : r.state.pace = r'.state.pace) : TwinOutcomes (afterRun r) (afterRun r') := by
  obtain ⟨pace, moves, hstate⟩ := h.state.exists_eq
  obtain ⟨s, answer, signals⟩ := r
  obtain ⟨t, answer', signals'⟩ := r'
  obtain rfl : answer = answer' := h.answer
  obtain rfl : signals = signals' := h.signals
  cases hstate
  exact ⟨⟨rfl, rfl, rfl, rfl⟩, rfl, rfl, rfl, rfl, fun _ => hpace⟩

theorem showing_asks_not {α : Type} (r : Reply Session α) (text : Session → String) :
    (showing r text).answer ≠ .ok (.goOn true) := by
  intro hasks
  unfold showing at hasks
  cases hanswer : r.answer <;> rw [hanswer] at hasks <;> cases hasks

theorem print_asks_not (s : Session) (text : Except Failure String) :
    (s.print text).answer ≠ .ok (.goOn true) := by
  intro hasks
  cases text <;> cases hasks

theorem TwinReplies.showing {α : Type} {r r' : Reply Session α} (h : TwinReplies r r')
    {text : Session → String} (htext : text r.state = text r'.state) :
    TwinOutcomes (showing r text) (showing r' text) := by
  refine ⟨h.state, rfl, ?_, ?_, h.signals, fun hasks => absurd hasks (showing_asks_not _ _)⟩
  · simp only [Session.showing, h.answer, htext]
  · simp only [Session.showing, h.answer]

theorem Twins.print {s t : Session} (h : s.Twins t) (text : Except Failure String) :
    TwinOutcomes (s.print text) (t.print text) :=
  ⟨h, rfl, rfl, rfl, rfl, fun hasks => absurd hasks (print_asks_not _ _)⟩

/-- Without Ctrl-C twins obey alike. -/
theorem Twins.obey {s t : Session} (h : s.Twins t) (w : Surroundings)
    (arguments : List (List Char)) (known : Command) :
    TwinOutcomes (s.obey w.undisturbed arguments known)
      (t.obey w.undisturbed arguments known) := by
  have hdriven : ∀ pace, TwinOutcomes (afterRun (s.drive w.undisturbed pace))
      (afterRun (t.drive w.undisturbed pace)) := by
    intro pace
    obtain ⟨hreplies, hpaces⟩ := h.drive w pace
    exact hreplies.afterRun hpaces
  have hloaded := h.loadFile w.undisturbed
  obtain ⟨pace, moves, rfl⟩ := h.exists_eq
  cases known with
  | step | next | run => exact hdriven _
  | undo => exact (h.following s.machine.undo).showing rfl
  | back => exact (h.following s.machine.undoStatement).showing rfl
  | reset => exact (h.following s.machine.reset).showing rfl
  | clear => exact (h.following (s.machine.access .clear)).showing rfl
  | load =>
    cases arguments with
    | nil => exact h.print _
    | cons file _ =>
      have hreplies := hloaded (String.ofList file)
      exact hreplies.showing (by rw [loaded, loaded, hreplies.state.machine])
  | regs | mem | vars | list | hist | ops | help => exact h.print _
  | quit => exact ⟨h, rfl, rfl, rfl, rfl, fun hasks => by cases hasks⟩

/-- Ctrl-C that does not come any more makes no difference. -/
theorem drive_of_calm {s : Session} {w : Surroundings} (hcalm : w.Calm s.moves) (pace : Pace) :
    s.drive w.undisturbed pace = s.drive w pace :=
  (s.compares w pace).deaf w.undisturbed rfl fun n hn => (hcalm n hn).symm

theorem obey_of_calm {s : Session} {w : Surroundings} (hcalm : w.Calm s.moves)
    (arguments : List (List Char)) (known : Command) :
    s.obey w.undisturbed arguments known = s.obey w arguments known := by
  cases known with
  | step | next | run => exact congrArg afterRun (drive_of_calm hcalm _)
  | load =>
    cases arguments with
    | nil => rfl
    | cons file _ => rfl
  | undo | back | reset | clear | regs | mem | vars | list | hist | ops | help | quit => rfl

end Session

namespace Console

/-- The consoles are alike but for what their sessions remember of earlier runs. The paces agree
where a run may go on. -/
structure Twins (c d : Console) : Prop where
  session : c.session.Twins d.session
  asks : c.asks = d.asks
  pace : c.asks = true → c.session.pace = d.session.pace

/-- Both turns fail with the same fault, or they have the same response and lead to twins if they
lead to another prompt. -/
inductive TwinTurns : Except Fault Turn → Except Fault Turn → Prop
  | failed (fault : Fault) : TwinTurns (.error fault) (.error fault)
  | left (response : Response) : TwinTurns (.ok ⟨none, response⟩) (.ok ⟨none, response⟩)
  | goesOn {c d : Console} (h : c.Twins d) (response : Response) :
      TwinTurns (.ok ⟨some c, response⟩) (.ok ⟨some d, response⟩)

theorem twinTurns_ofOutcome {o o' : Outcome} (h : Session.TwinOutcomes o o')
    (remembered : List String) : TwinTurns (ofOutcome o remembered) (ofOutcome o' remembered) := by
  obtain ⟨hsession, hprinted, hshown, hanswer, hsignals, hpace⟩ := h
  unfold ofOutcome
  rw [← hanswer, hprinted, hshown, hsignals]
  split
  · rename_i asks hasks
    refine .goesOn ?_ _
    refine ⟨hsession, rfl, ?_⟩
    rintro rfl
    exact hpace hasks
  · exact .left _
  · refine .goesOn ?_ _
    exact ⟨hsession, rfl, fun hwaits => absurd hwaits Bool.false_ne_true⟩
  · exact .failed _

namespace Twins

variable {c d : Console}

theorem prompt (h : c.Twins d) : c.prompt = d.prompt := by
  rw [Console.prompt, Console.prompt, h.asks, h.session.machine]

theorem withAsks (h : c.Twins d) (asks : Bool)
    (hpace : asks = true → c.session.pace = d.session.pace) :
    Twins { c with asks } { d with asks } :=
  ⟨h.session, rfl, hpace⟩

/-- Twins answer alike without Ctrl-C. -/
theorem respond (h : c.Twins d) (w : Surroundings) (typed : Typed) :
    TwinTurns (c.respond w.undisturbed typed) (d.respond w.undisturbed typed) := by
  have hsame : ∀ response, TwinTurns (.ok ⟨some { c with asks := false }, response⟩)
      (.ok ⟨some { d with asks := false }, response⟩) := fun response =>
    .goesOn (h.withAsks false fun hwaits => absurd hwaits Bool.false_ne_true) response
  unfold Console.respond
  rw [← h.prompt]
  cases hprompt : c.prompt with
  | command =>
    cases typed with
    | line line =>
      simp only [command]
      cases Request.ofLine line with
      | nothing | unknown word => exact hsame _
      | command known arguments => exact twinTurns_ofOutcome (h.session.obey w arguments known) _
    | interrupt | quit | endOfInput => exact .left _
  | value =>
    -- Only here the pace of an earlier run matters.
    have hpace : c.session.pace = d.session.pace := h.pace (waiting_of_value hprompt).1
    cases typed with
    | line line =>
      simp only [number]
      cases readNumber line.toList with
      | error failure =>
        cases failure with
        | fault f => exact .failed f
        | problem p => exact .goesOn (h.withAsks true fun _ => hpace) _
      | ok value =>
        have hgiven := h.session.following (c.session.machine.access (.send .input value))
        obtain ⟨hdriven, hpaces⟩ := hgiven.state.drive w c.session.pace
        have hresumed : (d.session.following
            (c.session.machine.access (.send .input value))).state.pace = c.session.pace :=
          hpace.symm
        simp only [← h.session.machine, hresumed]
        exact twinTurns_ofOutcome ((hdriven.afterRun hpaces).behind _) _
    | interrupt => exact hsame _
    | quit | endOfInput => exact .left _

end Twins

/-- Ctrl-C that does not come any more makes no difference. -/
theorem respond_of_calm {c : Console} {w : Surroundings} (hcalm : w.Calm c.session.moves)
    (typed : Typed) : c.respond w.undisturbed typed = c.respond w typed := by
  unfold respond
  cases c.prompt with
  | command =>
    cases typed with
    | line line => simp only [command, Session.obey_of_calm hcalm]
    | interrupt | quit | endOfInput => rfl
  | value =>
    cases typed with
    | line line =>
      have hdriven : ∀ value, let given := (c.session.following
            (c.session.machine.access (.send .input value))).state
          given.drive w.undisturbed given.pace = given.drive w given.pace := by
        intro value
        apply Session.drive_of_calm
        rw [← Session.given, Session.moves_given]
        exact hcalm
      simp only [number, hdriven]
    | interrupt | quit | endOfInput => rfl

/-- Everything that is said at a console from which Ctrl-C does not come any more is said at its
twin, in the same surroundings without Ctrl-C. -/
theorem Twins.ofTurns {c d : Console} (h : c.Twins d) {turns : List (Surroundings × Typed)}
    (hcalm : ∀ turn ∈ turns, turn.1.Calm c.session.moves) :
    Transcript.ofTurns c turns
      = Transcript.ofTurns d (turns.map fun (w, typed) => (w.undisturbed, typed)) := by
  induction turns generalizing c d with
  | nil => rfl
  | cons turn rest ih =>
    obtain ⟨w, typed⟩ := turn
    obtain ⟨hfirst, hlater⟩ := List.forall_mem_cons.1 hcalm
    have hturns := h.respond w typed
    rw [respond_of_calm hfirst] at hturns
    simp only [Transcript.ofTurns, List.map_cons, ← h.prompt]
    generalize hturn : c.respond w typed = r at hturns
    generalize d.respond w.undisturbed typed = r' at hturns
    cases hturns with
    | failed | left => rfl
    | @goesOn c' d' h' response =>
      have hcalm' : ∀ turn ∈ rest, turn.1.Calm c'.session.moves := by
        intro turn hmem n hn
        apply hlater turn hmem n
        have hmoves := (memorySize_moves_respond hturn).2
        omega
      simp only [bind, Except.bind, ih h' hcalm']

end Console

/-! ### Where a number may be asked for -/

namespace Session

variable {s : Session}

/-- A run that answers that it waits has left a machine that waits. -/
theorem waiting_of_driveOn (hready : s.machine.Ready) {w : Surroundings} {pace : Pace}
    {patience : Nat} {interrupted : Bool} {sent : Array Signal}
    (hanswer : (driveOn w pace patience s interrupted sent).answer = .ok .input) :
    (driveOn w pace patience s interrupted sent).state.machine.isWaiting = true := by
  induction patience generalizing s interrupted sent with
  | zero => cases hanswer
  | succ patience ih =>
    cases interrupted with
    | true => cases hanswer
    | false =>
      cases hplaced : s.misplacedInput? with
      | some p =>
        simp only [driveOn, hplaced, Bool.false_eq_true, if_false] at hanswer
        cases hanswer
      | none =>
        by_cases hgoesOn : s.machine.GoesOn pace
        · rw [driveOn_of_goesOn hplaced hgoesOn] at hanswer ⊢
          exact ih hready.step.1 hanswer
        · rw [driveOn_of_not_goesOn hplaced hgoesOn] at hanswer ⊢
          exact (hready.describes_step hanswer).input.1 rfl

theorem waiting_of_afterRun (hready : s.machine.Ready) {w : Surroundings} {pace : Pace}
    (hasks : (afterRun (s.drive w pace)).answer = .ok (.goOn true)) :
    (afterRun (s.drive w pace)).session.machine.isWaiting = true := by
  have hanswer : (s.drive w pace).answer = .ok .input := by
    unfold afterRun at hasks
    cases hevent : (s.drive w pace).answer with
    | error failure =>
      rw [hevent] at hasks
      cases hasks
    | ok event =>
      rw [hevent] at hasks
      cases event with
      | stopped | ended => cases hasks
      | input => rfl
  exact waiting_of_driveOn (s := { s with pace }) hready hanswer

theorem waiting_of_obey (hready : s.machine.Ready) {w : Surroundings}
    {arguments : List (List Char)} {known : Command}
    (hasks : (s.obey w arguments known).answer = .ok (.goOn true)) :
    (s.obey w arguments known).session.machine.isWaiting = true := by
  cases known with
  | step | next | run => exact waiting_of_afterRun hready hasks
  | undo | back | reset | clear => exact absurd hasks (showing_asks_not _ _)
  | regs | mem | vars | list | hist | ops | help => exact absurd hasks (print_asks_not _ _)
  | load =>
    cases arguments with
    | nil => cases hasks
    | cons file _ => exact absurd hasks (showing_asks_not _ _)
  | quit => cases hasks

end Session

namespace Console

variable {memorySize : Nat} {file? : Option String} {c c' : Console} {w : Surroundings}

theorem waiting_of_ofOutcome {o : Outcome} {remembered : List String} {response : Response}
    (ho : o.answer = .ok (.goOn true) → o.session.machine.isWaiting = true)
    (hturn : ofOutcome o remembered = .ok ⟨some c, response⟩) (hasks : c.asks = true) :
    c.session.machine.isWaiting = true := by
  unfold ofOutcome at hturn
  split at hturn
  · rename_i hanswer
    cases hturn
    obtain rfl : _ = true := hasks
    exact ho hanswer
  · cases hturn
  · cases hturn
    cases hasks
  · cases hturn

theorem waiting_of_respond {typed : Typed} {response : Response} (hquiet : c.session.Quiet)
    (hturn : c.respond w typed = .ok ⟨some c', response⟩) (hasks : c'.asks = true) :
    c'.session.machine.isWaiting = true := by
  unfold respond at hturn
  split at hturn
  · simp only [command] at hturn
    split at hturn
    · cases hturn
      cases hasks
    · cases hturn
      cases hasks
    · exact waiting_of_ofOutcome (Session.waiting_of_obey hquiet.attentive.ready) hturn hasks
  · rename_i hprompt
    simp only [number] at hturn
    split at hturn
    · cases hturn
    · cases hturn
      exact (waiting_of_value hprompt).2
    · rename_i value _
      refine waiting_of_ofOutcome ?_ hturn hasks
      exact Session.waiting_of_afterRun (hquiet.given value).attentive.ready
  · cases hturn
    cases hasks
  · cases hturn

/-- A console that asks for a number has a program that waits for one. -/
theorem Reached.waiting_of_asks (hc : Reached memorySize file? c) (hasks : c.asks = true) :
    c.session.machine.isWaiting = true := by
  cases hc with
  | start hstart =>
    unfold Console.start at hstart
    cases file? with
    | none =>
      cases hstart
      cases hasks
    | some file =>
      refine waiting_of_ofOutcome ?_ hstart hasks
      exact fun hwaits => absurd hwaits (Session.showing_asks_not _ _)
  | respond hc hturn => exact waiting_of_respond hc.quiet hturn hasks

theorem Reached.asks_of_command (hc : Reached memorySize file? c) (hprompt : c.prompt = .command) :
    c.asks = false := by
  cases hasks : c.asks with
  | false => rfl
  | true => simp [prompt, hasks, hc.waiting_of_asks hasks] at hprompt

end Console

/-! ### What a `load` finds -/

/-- A `load` with these arguments fails with the problem. -/
inductive LoadFails (w : Surroundings) (memorySize : Nat) : List (List Char) → Problem → Prop
  | unnamed : LoadFails w memorySize [] { cause := .noFileNamed }
  /-- There is no text of the file to be read. -/
  | unreadable {file : List Char} {rest : List (List Char)} {trouble : FileTrouble}
      (htext : w.text (String.ofList file) = .error trouble) :
      LoadFails w memorySize (file :: rest) trouble.problem
  | malformed {file : List Char} {rest : List (List Char)} {listing : String} {p : Problem}
      (htext : w.text (String.ofList file) = .ok listing)
      (hread : Program.read listing = .error p) : LoadFails w memorySize (file :: rest) p
  /-- The program names an address outside memory. -/
  | misplaced {file : List Char} {rest : List (List Char)} {listing : String} {program : Program}
      {p : Problem} (htext : w.text (String.ofList file) = .ok listing)
      (hread : Program.read listing = .ok program)
      (hplaced : program.misplaced? memorySize = some p) : LoadFails w memorySize (file :: rest) p

/-- A `load` with these arguments loads the listing. -/
inductive Loads (w : Surroundings) (memorySize : Nat) : List (List Char) → String → Prop
  | placed {file : List Char} {rest : List (List Char)} {listing : String} {program : Program}
      (htext : w.text (String.ofList file) = .ok listing)
      (hread : Program.read listing = .ok program)
      (hplaced : program.misplaced? memorySize = none) : Loads w memorySize (file :: rest) listing

theorem loadFails_or_loads (w : Surroundings) (memorySize : Nat) (arguments : List (List Char)) :
    (∃ p, LoadFails w memorySize arguments p) ∨
      ∃ listing, Loads w memorySize arguments listing := by
  cases arguments with
  | nil => exact .inl ⟨_, .unnamed⟩
  | cons file rest =>
    cases htext : w.text (String.ofList file) with
    | error trouble => exact .inl ⟨_, .unreadable htext⟩
    | ok listing =>
      cases hread : Program.read listing with
      | error p => exact .inl ⟨p, .malformed htext hread⟩
      | ok program =>
        cases hplaced : program.misplaced? memorySize with
        | some p => exact .inl ⟨p, .misplaced htext hread hplaced⟩
        | none => exact .inr ⟨listing, .placed htext hread hplaced⟩

namespace Session

variable {s t : Session} {w : Surroundings} {arguments : List (List Char)} {listing : String}

theorem obey_of_loadFails {p : Problem} (h : LoadFails w s.memorySize arguments p) :
    s.obey w arguments .load = { session := s, answer := .error (.problem p) } := by
  cases h with
  | unnamed => rfl
  | unreadable htext =>
    simp only [obey, loadFile, htext]
    rfl
  | malformed htext hread =>
    simp only [obey, loadFile, htext, load, hread]
    rfl
  | misplaced htext hread hplaced =>
    simp only [obey, loadFile, htext, load, hread, hplaced]
    rfl

theorem obey_of_loads (h : Loads w s.memorySize arguments listing) :
    ∃ shown signals, s.obey w arguments .load
      = { session := (s.load listing).state, shown, answer := .ok (.goOn false), signals } := by
  cases h with
  | placed htext hread hplaced =>
    simp only [obey, loadFile, htext, load, hread, hplaced]
    exact ⟨_, _, rfl⟩

/-- Loading a listing makes twins of any two sessions with the same amount of memory. -/
theorem twins_load (h : Loads w s.memorySize arguments listing)
    (hsize : s.memorySize = t.memorySize) :
    (s.load listing).state.Twins (t.load listing).state := by
  cases h with
  | placed htext hread hplaced =>
    simp only [load, hread, hplaced, ← hsize]
    exact ⟨rfl, rfl, rfl, rfl⟩

end Session

namespace Console

variable {memorySize : Nat} {file? : Option String} {c : Console} {arguments : List (List Char)}
  {listing : String}

theorem Loaded.asks {d : Console} (h : Loaded memorySize listing d)
    {w : Surroundings} (hloads : Loads w memorySize arguments listing) : d.asks = false := by
  cases hloads with
  | placed _ hread hplaced =>
    obtain ⟨_, hreached⟩ := h.reached
    cases hasks : d.asks with
    | false => rfl
    | true =>
      have hwaiting := hreached.waiting_of_asks hasks
      rw [h.machine hread hplaced] at hwaiting
      cases hwaiting

/-- A `load` fails or it succeeds. If it fails, the complaint is all that comes of it, and whatever
is said later is said as if it had not been typed. If it succeeds and Ctrl-C does not come again,
whatever is said later is said by any session with the same amount of memory that has just loaded
the same listing, and so by one that was newly started with it. -/
theorem load_atomic (hc : Reached memorySize file? c) (hprompt : c.prompt = .command)
    {line : String} (hrequest : Request.ofLine line = .command .load arguments)
    (w : Surroundings) :
    ((∃ p, LoadFails w memorySize arguments p) ∨ ∃ listing, Loads w memorySize arguments listing) ∧
      (∀ p, LoadFails w memorySize arguments p →
        let response : Response := { remembered := [line], shown := complaint p }
        c.respond w (.line line) = .ok ⟨some c, response⟩ ∧
          ∀ turns, Transcript.ofTurns c ((w, .line line) :: turns)
            = (⟨some (.command, .line line), response⟩ :: ·) <$> Transcript.ofTurns c turns) ∧
      ∀ listing, Loads w memorySize arguments listing →
        ∃ c' response, c.respond w (.line line) = .ok ⟨some c', response⟩ ∧
          ∀ d, Loaded memorySize listing d → ∀ turns : List (Surroundings × Typed),
            (∀ turn ∈ turns, turn.1.Calm c'.session.moves) →
            Transcript.ofTurns c' turns
              = Transcript.ofTurns d (turns.map fun (w, typed) => (w.undisturbed, typed)) := by
  have hsize := hc.memorySize
  have hobeyed : c.respond w (.line line)
      = ofOutcome (c.session.obey w arguments .load) [line] := by
    simp only [respond, hprompt, command, hrequest]
  refine ⟨loadFails_or_loads w memorySize arguments, ?_, ?_⟩
  · intro p hfails response
    have hsame : (⟨c.session, false⟩ : Console) = c := by rw [← hc.asks_of_command hprompt]
    have hturn : c.respond w (.line line) = .ok ⟨some c, response⟩ := by
      rw [hobeyed, Session.obey_of_loadFails (hsize ▸ hfails)]
      simp only [ofOutcome, hsame, String.empty_append, response]
    refine ⟨hturn, fun turns => ?_⟩
    rw [Transcript.ofTurns_cons_of_goesOn hturn, hprompt]
  · intro listing hloads
    rw [← hsize] at hloads
    obtain ⟨shown, signals, hobey⟩ := Session.obey_of_loads hloads
    refine ⟨⟨(c.session.load listing).state, false⟩, { remembered := [line], shown, signals },
      by rw [hobeyed, hobey]; rfl, ?_⟩
    intro d hd turns hcalm
    apply Twins.ofTurns _ hcalm
    obtain ⟨s, hs, hsession⟩ := hd.session
    refine ⟨?_, (hd.asks (hsize ▸ hloads)).symm, fun hasks => absurd hasks Bool.false_ne_true⟩
    rw [hsession]
    exact Session.twins_load hloads (hsize.trans hs.symm)

/-- A file that is no text. -/
def binaryFile : Surroundings where
  read _ := .error .notText
  patience := 9

/-- A user goes on by statements, is asked for a number and leaves the prompt. A file that is no
text is not loaded then, and the READ goes on waiting. The program is loaded again, and Ctrl-C,
which came while it ran before, does not come any more. -/
theorem load_atomic_waiting :
    ∃ c c' d response response', Reached 64 (some "a.lst") c ∧
      c.session.machine.isWaiting = true ∧ c.session.pace = .statement ∧
      c.respond binaryFile (.line "load b.lst") = .ok ⟨some c,
        { remembered := ["load b.lst"], shown := complaint FileTrouble.notText.problem }⟩ ∧
      c.respond (askingFile 1) (.line "load a.lst") = .ok ⟨some c', response⟩ ∧
      start (askingFile 1) 64 (some "a.lst") = .ok ⟨some d, response'⟩ ∧
      Transcript.ofTurns c' [(askingFile 1, .line "run"), (askingFile 1, .line "7")]
        = Transcript.ofTurns d [((askingFile 1).undisturbed, .line "run"),
            ((askingFile 1).undisturbed, .line "7")] := by
  have hasking : (conversation (askingFile 1) 64 (some "a.lst")
      [(askingFile 1, .line "next"), (askingFile 1, .line "next"),
        (askingFile 1, .interrupt)]).map (fun (_, _, c) =>
          (c.prompt, c.session.machine.isWaiting, c.session.pace, decide (1 ≤ c.session.moves)))
      = some (.command, true, .statement, true) := by decide +kernel
  have hfresh : (start (askingFile 1) 64 (some "a.lst")).toOption.map (·.console.isSome)
      = some true := by decide +kernel
  have haccepted : (Program.read askingListing).toOption.map (fun p => (p.misplaced? 64).isNone)
      = some true := by decide +kernel
  have hother : Request.ofLine "load b.lst" = .command .load ["b.lst".toList] := by decide +kernel
  have hagain : Request.ofLine "load a.lst" = .command .load ["a.lst".toList] := by decide +kernel
  obtain ⟨⟨_, es, c⟩, hconversation, heq⟩ := Option.map_eq_some_iff.1 hasking
  simp only [Prod.mk.injEq, decide_eq_true_eq] at heq
  obtain ⟨hprompt, hwaiting, hpace, hmoves⟩ := heq
  obtain ⟨turn, hturn, hconsole⟩ := Option.map_eq_some_iff.1 hfresh
  obtain ⟨d, hd⟩ := Option.isSome_iff_exists.1 hconsole
  obtain ⟨program, hread, hplaced⟩ := Option.map_eq_some_iff.1 haccepted
  have hstart : start (askingFile 1) 64 (some "a.lst") = .ok ⟨some d, turn.response⟩ := by
    rw [eq_ok_of_toOption hturn, ← hd]
  have hfails : LoadFails binaryFile 64 ["b.lst".toList] FileTrouble.notText.problem :=
    .unreadable rfl
  have hloads : Loads (askingFile 1) 64 ["a.lst".toList] askingListing :=
    .placed rfl (eq_ok_of_toOption hread) (Option.isNone_iff_eq_none.1 hplaced)
  have hc := reached_of_conversation hconversation
  obtain ⟨-, hrefused, -⟩ := load_atomic hc hprompt hother binaryFile
  obtain ⟨-, -, hloaded⟩ := load_atomic hc hprompt hagain (askingFile 1)
  obtain ⟨c', response, hturn', hagrees⟩ := hloaded _ hloads
  have hcalm : (askingFile 1).Calm c'.session.moves := by
    intro n hn
    have hmoves' := (memorySize_moves_respond hturn').2
    exact decide_eq_false (by omega)
  refine ⟨c, c', d, response, turn.response, hc, hwaiting, hpace, (hrefused _ hfails).1, hturn',
    hstart, ?_⟩
  refine hagrees d (.named rfl hstart) _ ?_
  exact List.forall_mem_cons.2 ⟨hcalm, List.forall_mem_singleton.2 hcalm⟩

end Console

end Backstep.Workbench
