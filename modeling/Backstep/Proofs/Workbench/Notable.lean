import Backstep.Proofs.Workbench.Failure
import Mathlib.Data.List.Forall2
/-!
# Words that are shown unasked

A user who asks for words of memory and names none is shown the variables of the program and the
words that were stored to since the program was loaded or memory was cleared. What was stored is
told here by the instructions that were completed and by those that were taken back, whatever the
session has noted of its signals: these are the `Incident`s of a conversation. `Session.Accounts`
compares the two, and what memory holds with them; a step, an undoing, a clearing and a loading each
keep it, and so does every conversation.
-/

namespace Backstep

/-- Nothing but its data stands in the memory that a program starts with. -/
theorem Memory.lt_of_byte?_withImage {n position : Nat} {image : List UInt8} {b : UInt8}
    (hbyte : ((zeroed n).withImage image).byte? position = some b) (hb : b ≠ 0) :
    position < image.length := by
  by_contra hbehind
  rw [withImage, byte?_splice_outside _ _ _ (.inr (by omega))] at hbyte
  exact hb (eq_zero_of_byte?_zeroed hbyte)

namespace Machine

/-- The program has a variable at the address. -/
def Declares (m : Machine) (a : Address) : Prop :=
  ∃ p, m.program = some p ∧ ∃ v ∈ p.vars.values, v.address = a

/-- The position lies inside the data of the program, which memory starts with. -/
def InImage (m : Machine) (position : Nat) : Prop :=
  ∃ p, m.program = some p ∧ position < p.data.size

/-- Loading copies the data in silence. -/
theorem silent_load (memorySize : Nat) (p : Program) :
    ∀ σ ∈ ((Machine.ofSize memorySize).load p).signals, σ.ofMemory = false := by
  refine List.forall_mem_append.2 ⟨fun σ hσ => ?_, ?_⟩
  · simp only [Core.putImage] at hσ
    split at hσ
    · rw [List.mem_singleton.1 hσ]
      rfl
    · cases hσ
  · exact List.forall_mem_cons.2 ⟨rfl, List.forall_mem_singleton.2 rfl⟩

end Machine

theorem Program.Keyed.mem_domain {p : Program} (h : p.Keyed) (a : Address) :
    a ∈ p.vars.domain.keys ↔ ∃ v ∈ p.vars.values, v.address = a := by
  rw [AddressMap.keys_domain]
  constructor
  · intro ha
    obtain ⟨e, he, rfl⟩ := List.mem_map.1 ha
    exact ⟨e.2, List.mem_map_of_mem he, (h e he).symm⟩
  · rintro ⟨v, hv, rfl⟩
    obtain ⟨e, he, rfl⟩ := List.mem_map.1 hv
    rw [← h e he]
    exact List.mem_map_of_mem he

namespace Workbench

/-! ### Incidents -/

/-- Something that happens to memory between a prompt and the next. -/
inductive Incident
  | loaded
  | cleared
  | stored (a : Address)
deriving DecidableEq

/-- The address was stored to, and since then no program was loaded and memory was not cleared. -/
def StoredSince (incidents : List Incident) (a : Address) : Prop :=
  ∃ before after, incidents = before ++ .stored a :: after ∧ .loaded ∉ after ∧ .cleared ∉ after

section Incidents

variable {happened : List Incident} {a : Address}

theorem not_storedSince_nil (a : Address) : ¬ StoredSince [] a := by
  rintro ⟨before, after, hsplit, -⟩
  simp at hsplit

theorem storedSince_concat {i : Incident} :
    StoredSince (happened ++ [i]) a ↔
      i = .stored a ∨ i ≠ .loaded ∧ i ≠ .cleared ∧ StoredSince happened a := by
  constructor
  · rintro ⟨before, after, hsplit, hloaded, hcleared⟩
    rcases List.eq_nil_or_concat after with rfl | ⟨after, j, rfl⟩
    · obtain ⟨-, hlast⟩ := List.append_inj' hsplit rfl
      exact .inl (List.singleton_inj.1 hlast)
    · rw [List.concat_eq_append, List.mem_append, not_or, List.mem_singleton] at hloaded hcleared
      rw [List.concat_eq_append, ← List.cons_append, ← List.append_assoc] at hsplit
      obtain ⟨rfl, hlast⟩ := List.append_inj' hsplit rfl
      obtain rfl := List.singleton_inj.1 hlast
      exact .inr ⟨Ne.symm hloaded.2, Ne.symm hcleared.2, before, after, rfl, hloaded.1, hcleared.1⟩
  · rintro (rfl | ⟨hloaded, hcleared, before, after, rfl, hloaded', hcleared'⟩)
    · exact ⟨happened, [], rfl, List.not_mem_nil, List.not_mem_nil⟩
    · refine ⟨before, after ++ [i], by rw [List.append_assoc, List.cons_append], ?_, ?_⟩
      all_goals rw [List.mem_append, not_or, List.mem_singleton]
      · exact ⟨hloaded', Ne.symm hloaded⟩
      · exact ⟨hcleared', Ne.symm hcleared⟩

theorem storedSince_stored {addresses : List Address} :
    StoredSince (happened ++ addresses.map .stored) a ↔
      StoredSince happened a ∨ a ∈ addresses := by
  induction addresses generalizing happened with
  | nil => simp
  | cons b addresses ih =>
    rw [List.map_cons, List.append_cons, ih, storedSince_concat]
    simp only [Incident.stored.injEq, ne_eq, reduceCtorEq, not_false_eq_true, true_and,
      List.mem_cons, eq_comm (a := b)]
    rw [or_comm (a := a = b), or_assoc]

theorem not_storedSince_loaded : ¬ StoredSince (happened ++ [.loaded]) a := by
  simp [storedSince_concat]

theorem not_storedSince_cleared : ¬ StoredSince (happened ++ [.cleared]) a := by
  simp [storedSince_concat]

end Incidents

namespace Session

variable {s : Session} {happened : List Incident}

/-- How many instructions a drive completes. -/
def driven (s : Session) (w : Surroundings) (pace : Pace) : Nat :=
  (s.drive w pace).state.machine.past.length - s.machine.past.length

/-- What a command that runs nothing does to memory. -/
def incidents (s : Session) (w : Surroundings) (arguments : List (List Char)) (known : Command) :
    List Incident :=
  let r := s.edit w arguments known
  match known with
  | .undo | .back | .reset => (s.machine.restored r.state.machine).map .stored
  | .clear => [.cleared]
  | .load => if r.answer.isOk then [.loaded] else []
  | _ => []

/-! ### Drives -/

theorem written_stepped (s : Session) (k : Nat) :
    (s.stepped k).written = (s.machine.sentBy k).foldl Signal.noteWritten s.written := by
  induction k with
  | zero => rfl
  | succ k ih =>
    rw [Machine.sentBy, List.foldl_append, ← ih, ← machine_stepped]
    rfl

theorem named_stepped (s : Session) (k : Nat) : (s.stepped k).named = s.named := by
  induction k with
  | zero => rfl
  | succ k ih => exact ih

/-- A drive is steps one after another, of which each but the last completes an instruction. -/
theorem driveOn_stepped (w : Surroundings) (pace : Pace) (patience : Nat) (s : Session)
    (interrupted : Bool) (sent : Array Signal) :
    ∃ k, (driveOn w pace patience s interrupted sent).state = s.stepped k ∧
      ∀ j, j + 1 < k → (s.machine.stepped j).GoesOn pace := by
  have hnone : ∀ (m : Machine) j, j + 1 < 0 → (m.stepped j).GoesOn pace :=
    fun _ _ hj => absurd hj (Nat.not_lt_zero _)
  induction patience generalizing s interrupted sent with
  | zero => exact ⟨0, rfl, hnone _⟩
  | succ patience ih =>
    cases interrupted with
    | true => exact ⟨0, rfl, hnone _⟩
    | false =>
      cases hplaced : s.misplacedInput? with
      | some p =>
        refine ⟨0, ?_, hnone _⟩
        simp only [driveOn, hplaced, Bool.false_eq_true, if_false, stepped]
      | none =>
        by_cases hgoesOn : s.machine.GoesOn pace
        · obtain ⟨k, hstate, hsteps⟩ := ih (s.following s.machine.step).state
            (w.interruptsWithin s.moves (s.following s.machine.step).state.moves)
            (sent ++ s.machine.step.signals)
          refine ⟨k + 1, ?_, fun j hj => ?_⟩
          · rw [driveOn_of_goesOn hplaced hgoesOn, hstate, stepped_following]
          · cases j with
            | zero => exact hgoesOn
            | succ j =>
              rw [← Machine.stepped_step_state]
              exact hsteps j (Nat.succ_lt_succ_iff.1 hj)
        · refine ⟨1, ?_, fun j hj => absurd hj (by omega)⟩
          rw [driveOn_of_not_goesOn hplaced hgoesOn]
          rfl

theorem drive_stepped (s : Session) (w : Surroundings) (pace : Pace) :
    ∃ k, (s.drive w pace).state = ({ s with pace } : Session).stepped k ∧
      s.machine.storedBy (s.driven w pace) = s.machine.storedBy k := by
  obtain ⟨k, hstate, hgoesOn⟩ := driveOn_stepped w pace (w.patience + 1) { s with pace } false #[]
  refine ⟨k, hstate, ?_⟩
  have hmachine : (s.drive w pace).state.machine = s.machine.stepped k := by
    rw [drive, hstate, machine_stepped]
  rw [driven, hmachine]
  exact Machine.storedBy_completed hgoesOn

/-! ### What the session has noted -/

/-- The session has noted where words were stored and where the variables are, and nowhere else are
there bytes other than zero, but for the data of the program. -/
structure Accounts (s : Session) (happened : List Incident) : Prop where
  recalls : s.machine.Recalls
  written : ∀ a, a ∈ s.written.keys ↔ StoredSince happened a
  named : ∀ a, a ∈ s.named.keys ↔ s.machine.Declares a
  filled : ∀ position b, s.machine.core.memory.byte? position = some b → b ≠ 0 →
    s.machine.InImage position ∨ ∃ a ∈ s.written.keys, Memory.Covers a position

namespace Accounts

theorem ofSize (memorySize : Nat) : (ofSize memorySize).Accounts [] where
  recalls := ⟨List.forall_mem_nil _, fun _ hwaits => by cases hwaits⟩
  written a := iff_of_false List.not_mem_nil (not_storedSince_nil a)
  named a := iff_of_false List.not_mem_nil fun ⟨_, hprogram, _⟩ => by cases hprogram
  filled _ _ hbyte hb := absurd (Memory.eq_zero_of_byte?_zeroed hbyte) hb

/-- Whatever stores to some words and signals that keeps the account. -/
theorem of_stores (h : s.Accounts happened) {s' : Session} {addresses : List Address}
    {sent : List Signal} (hstores : s.machine.Stores addresses sent s'.machine)
    (hwritten : s'.written = sent.foldl Signal.noteWritten s.written)
    (hnamed : s'.named = s.named) : s'.Accounts (happened ++ addresses.map .stored) := by
  have hkeys : ∀ a, a ∈ s'.written.keys ↔ a ∈ s.written.keys ∨ a ∈ addresses := by
    intro a
    rw [hwritten, Signal.mem_keys_noted hstores.core.uncleared, hstores.core.heard]
  refine ⟨hstores.recalls, fun a => ?_, fun a => ?_, fun position b hbyte hb => ?_⟩
  · rw [hkeys, h.written, storedSince_stored]
  · rw [hnamed, h.named, Machine.Declares, Machine.Declares, hstores.program]
  · by_cases hcovered : ∃ a ∈ addresses, Memory.Covers a position
    · obtain ⟨a, ha, hcovers⟩ := hcovered
      exact .inr ⟨a, (hkeys a).2 (.inr ha), hcovers⟩
    · rw [hstores.core.elsewhere position fun a ha hcovers => hcovered ⟨a, ha, hcovers⟩] at hbyte
      rcases h.filled position b hbyte hb with himage | ⟨a, ha, hcovers⟩
      · rw [Machine.InImage, ← hstores.program] at himage
        exact .inl himage
      · exact .inr ⟨a, (hkeys a).2 (.inl ha), hcovers⟩

theorem following {α : Type} (h : s.Accounts happened) {r : Reply Machine α}
    {addresses : List Address} (hstores : s.machine.Stores addresses r.signals r.state) :
    (s.following r).state.Accounts (happened ++ addresses.map .stored) :=
  h.of_stores hstores rfl rfl

theorem given (h : s.Accounts happened) (value : Word) : (s.given value).Accounts happened := by
  have hstores : s.machine.Stores [] (s.machine.access (.send .input value)).signals
      (s.machine.access (.send .input value)).state :=
    ⟨⟨h.recalls.past, h.recalls.parked⟩, rfl,
      .nothing (List.forall_mem_map.2 fun _ _ => rfl) rfl⟩
  have hgiven := h.following hstores
  rwa [List.map_nil, List.append_nil] at hgiven

theorem drained (h : s.Accounts happened) : s.drained.Accounts happened :=
  ⟨⟨h.recalls.past, h.recalls.parked⟩, h.written, h.named, h.filled⟩

theorem drive (h : s.Accounts happened) (w : Surroundings) (pace : Pace) :
    (s.drive w pace).state.Accounts
      (happened ++ (s.machine.storedBy (s.driven w pace)).map .stored) := by
  obtain ⟨k, hstate, hstored⟩ := s.drive_stepped w pace
  have hstores : s.machine.Stores (s.machine.storedBy k) (s.machine.sentBy k)
      (({ s with pace } : Session).stepped k).machine := by
    rw [machine_stepped]
    exact h.recalls.stepped k
  rw [hstate, hstored]
  exact h.of_stores hstores (written_stepped _ k) (named_stepped _ k)

/-- With a program that is loaded the account starts over. -/
theorem load {listing : String} (hnone : ∀ a, ¬ StoredSince happened a)
    (hanswer : (s.load listing).answer = .ok ()) : (s.load listing).state.Accounts happened := by
  unfold Session.load at hanswer ⊢
  cases hread : Program.read listing with
  | error p =>
    simp only [hread] at hanswer
    cases hanswer
  | ok program =>
    simp only [hread] at hanswer ⊢
    split
    · rename_i hmisplaced
      rw [hmisplaced] at hanswer
      cases hanswer
    · refine ⟨⟨List.forall_mem_nil _, fun _ hwaits => by cases hwaits⟩, fun a => ?_, fun a => ?_,
        fun position b hbyte hb => .inl ⟨program, rfl, ?_⟩⟩
      · refine iff_of_false ?_ (hnone a)
        simp only [Session.following, after,
          Signal.foldl_noteWritten_of_silent (Machine.silent_load _ _)]
        exact List.not_mem_nil
      · refine ((Program.of_read hread).2.mem_domain a).trans ⟨fun hv => ⟨program, rfl, hv⟩, ?_⟩
        rintro ⟨_, ⟨⟩, hv⟩
        exact hv
      · rw [← Array.length_toList]
        exact Memory.lt_of_byte?_withImage hbyte hb

theorem loadFile {w : Surroundings} {file : String} (hnone : ∀ a, ¬ StoredSince happened a)
    (hanswer : (s.loadFile w file).answer = .ok ()) :
    (s.loadFile w file).state.Accounts happened := by
  cases htext : w.text file with
  | error trouble =>
    simp only [Session.loadFile, htext] at hanswer
    cases hanswer
  | ok listing =>
    simp only [Session.loadFile, htext] at hanswer ⊢
    exact load hnone hanswer

theorem clear (h : s.Accounts happened) :
    (s.following (s.machine.access .clear)).state.Accounts (happened ++ [.cleared]) where
  recalls := ⟨h.recalls.past, h.recalls.parked⟩
  written _ := iff_of_false List.not_mem_nil not_storedSince_cleared
  named := h.named
  filled _ _ hbyte hb := absurd (Memory.eq_zero_of_byte?_zeroed hbyte) hb

theorem edit (h : s.Accounts happened) (w : Surroundings) (arguments : List (List Char))
    (known : Command) :
    (s.edit w arguments known).state.Accounts (happened ++ s.incidents w arguments known) := by
  have hsame : s.Accounts (happened ++ []) := by rwa [List.append_nil]
  cases known with
  | undo => exact h.following h.recalls.undo
  | back => exact h.following h.recalls.undoStatement
  | reset => exact h.following h.recalls.reset
  | clear => exact h.clear
  | load =>
    cases arguments with
    | nil => exact hsame
    | cons file rest =>
      cases hanswer : (s.loadFile w (String.ofList file)).answer with
      | ok =>
        have hloaded : s.incidents w (file :: rest) .load = [.loaded] :=
          if_pos (congrArg Except.isOk hanswer)
        rw [hloaded]
        exact loadFile (fun _ => not_storedSince_loaded) hanswer
      | error failure =>
        have hnothing : s.incidents w (file :: rest) .load = [] :=
          if_neg (by rw [Session.edit, hanswer]; exact Bool.false_ne_true)
        have hstate : (s.edit w (file :: rest) .load).state = s := state_of_loadFile_error hanswer
        rw [hnothing, hstate]
        exact hsame
  | step | next | run | regs | mem | vars | list | hist | ops | help | quit => exact hsame

end Accounts

end Session

/-! ### Tables of words -/

namespace Panel

/-- The row of the word at an address: the name of the variable there if one is declared, the
address, the number that the word is, and its bytes. -/
def ShowsWord (m : Machine) (a : Address) (row : List String) : Prop :=
  ∃ w, m.core.memory.read? a = some w ∧
    row = [nameAt m a, toString a.toNat, toString w.toInt,
      " ".intercalate ((m.core.memory.bytesAt a).map Numeral.hexOfByte)]

/-- If each row can be made, then so can the table that they all make. -/
theorem table_of_rows {α β γ : Type} {f : α → Except Failure β} {g : List β → γ}
    {R : α → β → Prop} {P : γ → Prop} {l : List α} (hrow : ∀ a ∈ l, ∃ b, f a = .ok b ∧ R a b)
    (htable : ∀ bs, List.Forall₂ R l bs → P (g bs)) :
    ∃ t, (l.mapM f >>= fun bs => return g bs) = .ok t ∧ P t := by
  suffices hrows : ∃ bs, l.mapM f = .ok bs ∧ List.Forall₂ R l bs by
    obtain ⟨bs, hok, hall⟩ := hrows
    exact ⟨g bs, by rw [hok]; rfl, htable bs hall⟩
  clear htable
  induction l with
  | nil => exact ⟨[], rfl, .nil⟩
  | cons a l ih =>
    obtain ⟨b, hb, hrel⟩ := hrow a List.mem_cons_self
    obtain ⟨bs, hbs, hall⟩ := ih fun a' ha' => hrow a' (List.mem_cons_of_mem _ ha')
    refine ⟨b :: bs, ?_, .cons hrel hall⟩
    rw [List.mapM_cons, hb, hbs]
    rfl

theorem words_of_measured {m : Machine} {addresses : List Address}
    (hholds : ∀ a ∈ addresses, m.core.memory.Holds a)
    (hmeasured : (addresses.map (nameAt m)).find? unmeasured = none) :
    ∃ t, words m addresses = .ok t ∧ List.Forall₂ (ShowsWord m) addresses t.rows := by
  unfold words
  refine table_of_rows (R := ShowsWord m) (fun a ha => ?_) fun rows hrows => hrows
  obtain ⟨w, hread⟩ := (hholds a ha).read?
  have hload : m.core.load a = .ok w := by simp only [Core.load, hread]
  have hcell : nameCell (nameAt m a) = .ok (nameAt m a) :=
    nameCell_of_measured
      (Bool.eq_false_iff.2 (List.find?_eq_none.1 hmeasured _ (List.mem_map_of_mem ha)))
  refine ⟨_, ?_, w, hread, rfl⟩
  unfold nameAt at hcell ⊢
  simp only [hload, bind, Except.bind, hcell]
  rfl

end Panel

/-! ### Conversations -/

/-- What happened to memory before the next prompt, in order. -/
def Exchange.incidents (e : Exchange) : List Incident :=
  match e.console.run? e.typed with
  | some (s, pace) => (s.machine.storedBy (s.driven e.surroundings pace)).map .stored
  | none =>
    match e.console.prompt, e.typed with
    | .command, .line line =>
      match Request.ofLine line with
      | .command known arguments => e.console.session.incidents e.surroundings arguments known
      | _ => []
    | _, _ => []

namespace Console

variable {c d : Console} {w : Surroundings} {es : List Exchange}

theorem accounts_respond {happened : List Incident} (h : c.session.Accounts happened)
    {typed : Typed} {response : Response}
    (hturn : c.respond w typed = .ok ⟨some d, response⟩) :
    d.session.Accounts (happened ++ Exchange.incidents ⟨c, w, typed, response⟩) := by
  cases hrun : c.run? typed with
  | some begun =>
    obtain ⟨s, pace⟩ := begun
    have hs : s.Accounts happened := by
      rcases accepted?_of_run hrun with ⟨-, rfl⟩ | ⟨value, -, rfl⟩
      · exact h
      · exact h.given value
    obtain ⟨asks, hconsole⟩ := (turned_of_run hrun hturn).console
    cases hconsole
    simp only [Exchange.incidents, hrun]
    exact (hs.drive w pace).drained
  | none =>
    have hsame : c.session.Accounts (happened ++ []) := by rwa [List.append_nil]
    rw [((turned_of_edit hrun hturn).console d rfl).1]
    simp only [Exchange.incidents, hrun, edit]
    cases c.prompt with
    | value => exact hsame
    | command =>
      cases typed with
      | line line =>
        simp only
        cases Request.ofLine line with
        | nothing | unknown => exact hsame
        | command known arguments => exact h.edit w arguments known
      | interrupt | quit | endOfInput => exact hsame

theorem accounts_start {memorySize : Nat} {file? : Option String} {response : Response}
    (hstart : start w memorySize file? = .ok ⟨some c, response⟩) : c.session.Accounts [] := by
  rw [((turned_of_start hstart).console c rfl).1]
  cases file? with
  | none => exact .ofSize memorySize
  | some file =>
    rw [opening]
    cases hanswer : ((Session.ofSize memorySize).loadFile w file).answer with
    | ok => exact .loadFile not_storedSince_nil hanswer
    | error failure =>
      rw [Session.state_of_loadFile_error hanswer]
      exact .ofSize memorySize

theorem accounts_played {happened : List Incident} (h : c.session.Accounts happened) {turns}
    (hplayed : c.played turns = some (es, d)) :
    d.session.Accounts (happened ++ es.flatMap (·.incidents)) := by
  induction turns generalizing c es happened with
  | nil =>
    cases hplayed
    rw [List.flatMap_nil, List.append_nil]
    exact h
  | cons turn rest ih =>
    obtain ⟨c', response, es', hturn, hrest, rfl⟩ := played_cons hplayed
    rw [List.flatMap_cons, ← List.append_assoc]
    exact ih (accounts_respond h hturn) hrest

theorem accounts_conversation {memorySize : Nat} {file? : Option String} {turns}
    {response : Response} (h : conversation w memorySize file? turns = some (response, es, c)) :
    c.session.Accounts (es.flatMap (·.incidents)) := by
  obtain ⟨c', hstart, hplayed⟩ := of_conversation h
  exact accounts_played (accounts_start hstart) hplayed

open Panel (unmeasured)

/-- What a user sees who asks for words and names none. The addresses go up; they are those of the
variables of the program and of the words that were stored to since it was loaded or memory was
cleared, and each of the words lies inside memory. Outside of them and of the data of the program
every byte is zero. -/
structure Reveals (c : Console) (incidents : List Incident) (addresses : List Address) : Prop where
  asked : c.session.wordsToShow [] = .ok addresses
  increasing : addresses.Pairwise (· < ·)
  members : ∀ a, a ∈ addresses ↔ c.session.machine.Declares a ∨ StoredSince incidents a
  inside : ∀ a ∈ addresses, a.toNat + 8 ≤ c.session.memorySize
  filled : ∀ position b, c.session.machine.core.memory.byte? position = some b → b ≠ 0 →
    c.session.machine.InImage position ∨ ∃ a ∈ addresses, Memory.Covers a position

/-- A bare `mem` shows a row for each of the addresses, in their order, and changes nothing. But it
fails if a name is to be shown that no cell can hold, over the first such name. -/
structure Lists (c : Console) (addresses : List Address) : Prop where
  shown : (addresses.map (Panel.nameAt c.session.machine)).find? unmeasured = none →
    ∀ w line, Request.ofLine line = .command .mem [] →
      ∃ t, Panel.words c.session.machine addresses = .ok t ∧
        List.Forall₂ (Panel.ShowsWord c.session.machine) addresses t.rows ∧
        c.respond w (.line line)
          = .ok ⟨some ⟨c.session, false⟩, { remembered := [line], shown := t.text }⟩
  fails : ∀ name, (addresses.map (Panel.nameAt c.session.machine)).find? unmeasured = some name →
    ∀ w line, Request.ofLine line = .command .mem [] →
      c.respond w (.line line) = .error (.unmeasured name)

theorem Reveals.eq_keys {happened : List Incident} {addresses : List Address}
    (h : c.Reveals happened addresses) : addresses = c.session.notable.keys :=
  (Except.ok.inj h.asked).symm

theorem reveals {happened : List Incident} (h : c.session.Accounts happened)
    (hsafe : c.session.Safe) : c.Reveals happened c.session.notable.keys where
  asked := rfl
  increasing := c.session.notable.pairwise_keys
  members a := by
    rw [Session.notable, AddressMap.mem_keys_union, h.written, h.named, or_comm]
  inside := hsafe.notable
  filled position b hbyte hb := by
    refine (h.filled position b hbyte hb).imp_right fun ⟨a, ha, hcovers⟩ => ⟨a, ?_, hcovers⟩
    exact AddressMap.mem_keys_union.2 (.inl ha)

theorem lists (hsafe : c.session.Safe) (hprompt : c.prompt = .command) {addresses : List Address}
    (hasked : c.session.wordsToShow [] = .ok addresses) : c.Lists addresses where
  shown hmeasured w line hrequest := by
    have hholds := (hsafe.wordsToShow []).holds addresses hasked
    obtain ⟨t, hwords, hrows⟩ := Panel.words_of_measured hholds hmeasured
    refine ⟨t, hwords, hrows, ?_⟩
    simp only [respond, hprompt, command, hrequest, Session.obey, hasked]
    simp only [bind, Except.bind, hwords]
    rfl
  fails name hname w line hrequest := by
    refine ((settled_respond hsafe w (.line line)).fails _ (by simp)).2 ⟨name, ?_, rfl⟩
    simp only [namesShown, hprompt, hrequest, Session.namesShown, hasked]
    exact hname

/-- Whatever was said before, a bare `mem` lists the variables of the program and the words that
were stored to since it was loaded or memory was cleared, no more and no less, if their names fit
into a table. So nothing but zero is hidden outside of the data of the program. -/
theorem notable_exact {memorySize : Nat} {file? : Option String} {turns} {response : Response}
    (h : conversation w memorySize file? turns = some (response, es, c)) :
    c.session.memorySize = memorySize ∧
      ∃ addresses, c.Reveals (es.flatMap (·.incidents)) addresses ∧
        (c.prompt = .command → c.Lists addresses) := by
  have hreached := reached_of_conversation h
  have hreveals := reveals (accounts_conversation h) hreached.safe
  exact ⟨hreached.memorySize, _, hreveals, fun hprompt =>
    lists hreached.safe hprompt hreveals.asked⟩

/-- A file that stores to two words and reads to a third. Its variable is a fourth. -/
def storingFile : Surroundings where
  read _ := .ok (".data 03\n.var x 0 8 1.1-1.2\n* 1: LOAD_I(40)\n* 2: SET(8)\n* 3: SET(24)\n"
    ++ "* 4: INTERRUPT(0)\n")
  patience := 9

/-- Memory is cleared once both words were stored to, and the later store is undone and done again
before the number is read. -/
def storingAgain : List (Surroundings × Typed) :=
  ["step", "next", "step", "clear", "undo", "run", "7"].map fun line => (storingFile, .line line)

theorem notable_exact_storing :
    (∃ response es c,
      conversation storingFile 64 (some "a.lst") storingAgain = some (response, es, c) ∧
        es.flatMap (·.incidents)
          = [.stored 8, .stored 24, .cleared, .stored 24, .stored 24, .stored 40] ∧
        c.Reveals (es.flatMap (·.incidents)) [0, 24, 40] ∧ c.Lists [0, 24, 40]) ∧
    ∃ response c, conversation hidingFile 64 (some "a.lst") [] = some (response, [], c) ∧
      c.Reveals [] [0] ∧ c.respond hidingFile (.line "mem") = .error (.unmeasured hidingName) := by
  constructor
  · have hstoring : (conversation storingFile 64 (some "a.lst") storingAgain).map
        (fun (_, es, c) => (es.flatMap (·.incidents), c.session.notable.keys, c.prompt))
        = some ([.stored 8, .stored 24, .cleared, .stored 24, .stored 24, .stored 40],
            [0, 24, 40], .command) := by
      decide +kernel
    obtain ⟨⟨response, es, c⟩, hconversation, heq⟩ := Option.map_eq_some_iff.1 hstoring
    simp only [Prod.mk.injEq] at heq
    obtain ⟨hincidents, hkeys, hprompt⟩ := heq
    obtain ⟨-, addresses, hreveals, hlists⟩ := notable_exact hconversation
    obtain rfl : addresses = [0, 24, 40] := hreveals.eq_keys.trans hkeys
    exact ⟨response, es, c, hconversation, hincidents, hreveals, hlists hprompt⟩
  · have hhiding : (conversation hidingFile 64 (some "a.lst") []).map (fun (_, es, c) =>
        (es.isEmpty, c.session.notable.keys, c.prompt,
          [0].map (Panel.nameAt c.session.machine)))
        = some (true, [0], .command, [hidingName]) := by
      decide +kernel
    obtain ⟨⟨response, es, c⟩, hconversation, heq⟩ := Option.map_eq_some_iff.1 hhiding
    simp only [Prod.mk.injEq] at heq
    obtain ⟨hempty, hkeys, hprompt, hname⟩ := heq
    obtain rfl := List.isEmpty_iff.1 hempty
    obtain ⟨-, addresses, hreveals, hlists⟩ := notable_exact hconversation
    obtain rfl : addresses = [0] := hreveals.eq_keys.trans hkeys
    refine ⟨response, c, hconversation, hreveals,
      (hlists hprompt).fails hidingName ?_ hidingFile "mem" rfl⟩
    rw [hname]
    decide +kernel

end Console

end Workbench

end Backstep
