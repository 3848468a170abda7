import Backstep.Proofs.Machine.Course
import Backstep.Proofs.Machine.Refusal
import Backstep.Proofs.Workbench.Output
/-!
# Stepping through a program

A program may be run at any mixture of paces, be stopped by Ctrl-C at any moment, and be left
waiting at any READ while the user looks around. None of this changes what it does. Two
conversations that load a listing and then only step through it, giving the same numbers, are on the
same course of the program, if what was printed is counted to what stands in the output. They are
alike wherever they have come equally far, and so at the end.
-/

namespace Backstep.Workbench

/-- The answer ends the run at the end of the program or with a problem. -/
def halts : Except Failure Event → Bool
  | .ok .ended | .error (.problem _) => true
  | _ => false

theorem answer_of_halts {answer : Except Failure Event} (h : halts answer = true) :
    answer = .ok .ended ∨ ∃ p, answer = .error (.problem p) := by
  unfold halts at h
  split at h
  · exact .inl rfl
  · exact .inr ⟨_, rfl⟩
  · cases h

namespace Session

/-- The session has come so far on the course of its program: after these words of input, and with
these words printed. -/
structure Follows (memorySize : Nat) (start : Machine) (words said : List Word) (s : Session) :
    Prop where
  size : s.memorySize = memorySize
  quiet : s.Quiet
  course : Machine.OnCourse memorySize start words (s.machine.changed (.behind said))

/-- The session has come so far on the course, and not back from where it was; if it halted there,
it can go no further. -/
structure Reaches (memorySize : Nat) (start : Machine) (words said : List Word) (before : Nat)
    (halts : Bool) (s : Session) : Prop where
  follows : s.Follows memorySize start words said
  onward : before ≤ s.machine.past.length
  halted : halts = true → (s.machine.changed (.behind said)).Halted memorySize

namespace Follows

variable {memorySize : Nat} {start : Machine} {words said : List Word} {s : Session}

theorem given (h : s.Follows memorySize start words said) (value : Word) :
    (s.given value).Follows memorySize start (words ++ [value]) said :=
  ⟨h.size, h.quiet.given value, h.course.feed value⟩

/-- A drive follows the course, and comes to its end if it halts. -/
theorem drive (h : s.Follows memorySize start words said) (w : Surroundings) (pace : Pace) :
    (s.drive w pace).state.drained.Reaches memorySize start words
      (said ++ (s.drive w pace).state.machine.core.output.buffer) s.machine.past.length
      (halts (s.drive w pace).answer) := by
  obtain ⟨k, hends, -, hdrained, hquiet⟩ := h.quiet.drive w pace
  obtain ⟨-, hunread, -⟩ := Machine.said_stepped h.quiet.attentive h.quiet.unread k
  have hbehind := Machine.stepped_changed (Core.unnoticed_behind said)
    (Core.unnoticedByReads_behind said) s.machine
  have hplace : (s.drive w pace).state.drained.machine.changed
        (.behind (said ++ (s.drive w pace).state.machine.core.output.buffer))
      = (s.machine.changed (.behind said)).stepped k := by
    rw [hbehind, hdrained, hends.machine]
    conv => rhs; rw [hunread.eq_behind]
    simp only [Machine.changed, Core.behind, Machine.silent, Machine.withOutput, Machine.said,
      List.append_nil]
  refine ⟨⟨(s.counts_drive w pace).memorySize.trans h.size, hquiet, ?_⟩, ?_, ?_⟩
  · rw [hplace]
    apply h.course.stepped
    intro j hj
    rw [hbehind, ← h.size]
    exact hends.inside j hj
  · rw [hdrained]
    exact s.machine.past_le_stepped k
  · intro hhalts
    rw [hplace, hbehind]
    apply Machine.Halted.behind
    rcases hends.answer with hanswer | hanswer | houtside | ⟨j, rfl, hanswer⟩
    · rw [hanswer] at hhalts
      cases hhalts
    · rw [hanswer] at hhalts
      cases hhalts
    · exact .inl (h.size ▸ houtside)
    · apply (Machine.said_stepped h.quiet.attentive h.quiet.unread j).1.halted_of_answer
      rw [← hanswer]
      exact answer_of_halts hhalts

end Follows

end Session

/-! ### What is refused -/

namespace Session

/-- A command that is refused leaves the machine as it was. -/
theorem machine_of_refused {s : Session} {w : Surroundings} {arguments : List (List Char)}
    {known : Command} {p : Problem} (h : (s.edit w arguments known).answer = .error (.problem p)) :
    (s.edit w arguments known).state.machine = s.machine := by
  cases known with
  | undo => exact Machine.undo_refused h
  | back => exact Machine.undoStatement_refused h
  | reset => exact Machine.reset_refused h
  | clear => cases h
  | load =>
    cases arguments with
    | nil => rfl
    | cons file _ => exact congrArg Session.machine (state_of_loadFile_error h)
  | step | next | run | regs | mem | vars | list | hist | ops | help | quit => rfl

end Session

/-- The command does something to the session other than to drive it. -/
def Command.edits : Command → Bool
  | .undo | .back | .reset | .clear | .load => true
  | _ => false

theorem Session.edit_of_shows (s : Session) (w : Surroundings) (arguments : List (List Char))
    {known : Command} (h : known.edits = false) : s.edit w arguments known = ⟨s, .ok (), []⟩ := by
  cases known with
  | undo | back | reset | clear | load => cases h
  | step | next | run | regs | mem | vars | list | hist | ops | help | quit => rfl

namespace Exchange

/-- What is typed is a command to change the session other than by driving it. -/
def edits (e : Exchange) : Bool :=
  match e.console.prompt, e.typed with
  | .command, .line line =>
    match Request.ofLine line with
    | .command known _ => known.edits
    | _ => false
  | _, _ => false

/-- What the command would do is refused with a problem. -/
def refused (e : Exchange) : Bool :=
  match (e.console.edit e.surroundings e.typed).answer with
  | .error (.problem _) => true
  | _ => false

/-- A run, something shown, a line that is no number or no command, a prompt that is dismissed, or a
command that is refused. -/
def plain (e : Exchange) : Bool := !e.edits || e.refused

/-- A run that comes to the end of the program or to a problem. -/
def halts (e : Exchange) : Bool :=
  (e.console.run? e.typed).any fun (s, pace) => Workbench.halts (s.drive e.surroundings pace).answer

theorem machine_of_plain {e : Exchange} (h : e.plain = true) :
    (e.console.edit e.surroundings e.typed).state.machine = e.console.session.machine := by
  unfold plain edits refused at h
  unfold Console.edit at h ⊢
  split
  · rename_i line hprompt htyped
    simp only [hprompt, htyped] at h
    split
    · rename_i known arguments hrequest
      simp only [hrequest, Bool.or_eq_true, Bool.not_eq_true'] at h
      rcases h with hshows | hrefused
      · rw [Session.edit_of_shows _ _ _ hshows]
      · split at hrefused
        · rename_i p hproblem
          exact Session.machine_of_refused hproblem
        · cases hrefused
    · rfl
  · rfl

end Exchange

/-! ### Conversations that only step through a program -/

namespace Console

/-- The numbers that were accepted for the program. -/
def accepted (es : List Exchange) : List Word :=
  es.flatMap fun e => (e.console.accepted? e.typed).toList

/-- Everything that the program has put out. -/
def printed (es : List Exchange) : List Word := es.flatMap (·.response.printed)

variable {memorySize : Nat} {start : Machine} {words said : List Word}

/-- A plain turn goes on along the course. -/
theorem reaches_of_plain {c c' : Console} {w : Surroundings} {typed : Typed} {response : Response}
    (h : c.session.Follows memorySize start words said)
    (hturn : c.respond w typed = .ok ⟨some c', response⟩)
    (hplain : Exchange.plain ⟨c, w, typed, response⟩ = true) :
    c'.session.Reaches memorySize start (words ++ (c.accepted? typed).toList)
      (said ++ response.printed) c.session.machine.past.length
      (Exchange.halts ⟨c, w, typed, response⟩) := by
  cases hrun : c.run? typed with
  | none =>
    have hedited := turned_of_edit hrun hturn
    have hsession := (hedited.console c' rfl).1
    have hmachine : c'.session.machine = c.session.machine := by
      rw [hsession]
      exact Exchange.machine_of_plain hplain
    rw [accepted?_of_edit hrun, hedited.printed, Option.toList_none, List.append_nil,
      List.append_nil]
    refine ⟨⟨(memorySize_moves_respond hturn).1.trans h.size, ?_, ?_⟩, ?_, ?_⟩
    · rw [hsession]
      exact quiet_edit h.quiet w typed
    · rw [hmachine]
      exact h.course
    · rw [hmachine]
    · intro hhalts
      simp only [Exchange.halts, hrun] at hhalts
      cases hhalts
  | some begun =>
    obtain ⟨s, pace⟩ := begun
    obtain ⟨⟨asks, hconsole⟩, hprinted, -, -, -⟩ := turned_of_run hrun hturn
    cases hconsole
    have hhalts : Exchange.halts ⟨c, w, typed, response⟩ = halts (s.drive w pace).answer := by
      simp only [Exchange.halts, hrun, Option.any_some]
    rw [hhalts, hprinted]
    rcases accepted?_of_run hrun with ⟨haccepted, rfl⟩ | ⟨value, haccepted, rfl⟩
    · rw [haccepted, Option.toList_none, List.append_nil]
      exact h.drive w pace
    · rw [haccepted, Option.toList_some]
      exact (h.given value).drive w pace

/-- A machine on the course that could go no further, at a place that is not beyond the session. -/
def Done (memorySize : Nat) (start : Machine) (words : List Word) (far : Nat) : Prop :=
  ∃ words' m, words' <+: words ∧ Machine.OnCourse memorySize start words' m ∧
    m.Halted memorySize ∧ m.past.length ≤ far

theorem follows_of_played {c d : Console} {turns} {es : List Exchange}
    (h : c.session.Follows memorySize start words said) (hplayed : c.played turns = some (es, d))
    (hplain : ∀ e ∈ es, e.plain = true) :
    d.session.Follows memorySize start (words ++ accepted es) (said ++ printed es) ∧
      c.session.machine.past.length ≤ d.session.machine.past.length ∧
      ((∃ e ∈ es, e.halts = true) →
        Done memorySize start (words ++ accepted es) d.session.machine.past.length) := by
  induction turns generalizing c es words said with
  | nil =>
    cases hplayed
    refine ⟨?_, Nat.le_refl _, ?_⟩
    · simpa only [accepted, printed, List.flatMap_nil, List.append_nil] using h
    · rintro ⟨e, he, -⟩
      cases he
  | cons turn rest ih =>
    obtain ⟨c', response, es', hturn, hrest, rfl⟩ := played_cons hplayed
    obtain ⟨hplain, hplain'⟩ := List.forall_mem_cons.1 hplain
    obtain ⟨hfollows, honward, hhalted⟩ := reaches_of_plain h hturn hplain
    obtain ⟨hfollows', honward', hdone⟩ := ih hfollows hrest hplain'
    simp only [accepted, printed, List.flatMap_cons, ← List.append_assoc] at hfollows' hdone ⊢
    refine ⟨hfollows', Nat.le_trans honward honward', ?_⟩
    rintro ⟨e, he, hhalts⟩
    rcases List.mem_cons.1 he with rfl | he
    · exact ⟨_, _, List.prefix_append _ _, hfollows.course, hhalted hhalts, honward'⟩
    · exact hdone ⟨e, he, hhalts⟩

/-- A console right after a listing was loaded: from the file that was named at the start, or from
one that a command named later. -/
inductive Loaded (memorySize : Nat) (listing : String) : Console → Prop
  | named {w : Surroundings} {file : String} {c : Console} {response : Response}
      (htext : w.text file = .ok listing)
      (hstart : Console.start w memorySize (some file) = .ok ⟨some c, response⟩) :
      Loaded memorySize listing c
  | commanded {file? : Option String} {w : Surroundings} {c c' : Console} {line : String}
      {file : List Char} {arguments : List (List Char)} {response : Response}
      (hc : Reached memorySize file? c) (hprompt : c.prompt = .command)
      (hrequest : Request.ofLine line = .command .load (file :: arguments))
      (htext : w.text (String.ofList file) = .ok listing)
      (hturn : c.respond w (.line line) = .ok ⟨some c', response⟩) :
      Loaded memorySize listing c'

variable {listing : String} {program : Program}

theorem machine_of_load {s : Session} (hread : Program.read listing = .ok program)
    (hplaced : program.misplaced? s.memorySize = none) :
    (s.load listing).state.machine = ((Machine.ofSize s.memorySize).load program).state := by
  simp only [Session.load, hread, hplaced]
  rfl

/-- The session comes from loading the listing into some session with that much memory. -/
theorem Loaded.session {d : Console} (h : Loaded memorySize listing d) :
    ∃ s : Session, s.memorySize = memorySize ∧ d.session = (s.load listing).state := by
  cases h with
  | @named w file _ response htext hstart =>
    refine ⟨.ofSize memorySize, rfl, ?_⟩
    rw [((turned_of_start hstart).console d rfl).1, opening, Session.loadFile, htext]
  | @commanded file? w c _ line file arguments response hc hprompt hrequest htext hturn =>
    have hrun : c.run? (.line line) = none := by
      simp only [run?, hprompt, hrequest]
      rfl
    have hload : c.edit w (.line line) = c.session.load listing := by
      simp only [edit, hprompt, hrequest, Session.edit, Session.loadFile, htext]
    refine ⟨c.session, hc.memorySize, ?_⟩
    rw [((turned_of_edit hrun hturn).console d rfl).1, hload]

theorem Loaded.machine {d : Console} (h : Loaded memorySize listing d)
    (hread : Program.read listing = .ok program)
    (hplaced : program.misplaced? memorySize = none) :
    d.session.machine = ((Machine.ofSize memorySize).load program).state := by
  obtain ⟨s, rfl, hsession⟩ := h.session
  rw [hsession]
  exact machine_of_load hread hplaced

theorem Loaded.reached {c : Console} (h : Loaded memorySize listing c) :
    ∃ file?, Reached memorySize file? c := by
  cases h with
  | named _ hstart => exact ⟨_, .start hstart⟩
  | commanded hc _ _ _ hturn => exact ⟨_, .respond hc hturn⟩

theorem Loaded.follows {c : Console} (h : Loaded memorySize listing c)
    (hread : Program.read listing = .ok program)
    (hplaced : program.misplaced? memorySize = none) :
    c.session.Follows memorySize ((Machine.ofSize memorySize).load program).state [] [] := by
  obtain ⟨file?, hreached⟩ := h.reached
  refine ⟨hreached.memorySize, hreached.quiet, ?_⟩
  rw [h.machine hread hplaced]
  exact Machine.OnCourse.refl (Machine.attentive_load _ _) rfl

/-- Take two conversations that load the same listing and from there on only step through it, while
of the same numbers so many are accepted. Where equally many instructions have completed in both, or
where both have halted, the machines are alike and the same words were printed. -/
theorem stepping_agrees {c₁ c₂ d₁ d₂ : Console} {turns₁ turns₂} {es₁ es₂ : List Exchange}
    {numbers : List Word} (hread : Program.read listing = .ok program)
    (hplaced : program.misplaced? memorySize = none)
    (hc₁ : Loaded memorySize listing c₁) (hc₂ : Loaded memorySize listing c₂)
    (hd₁ : c₁.played turns₁ = some (es₁, d₁)) (hd₂ : c₂.played turns₂ = some (es₂, d₂))
    (hplain₁ : ∀ e ∈ es₁, e.plain = true) (hplain₂ : ∀ e ∈ es₂, e.plain = true)
    (hnumbers₁ : accepted es₁ <+: numbers) (hnumbers₂ : accepted es₂ <+: numbers)
    (hfar : d₁.session.machine.past.length = d₂.session.machine.past.length ∨
      (∃ e ∈ es₁, e.halts = true) ∧ ∃ e ∈ es₂, e.halts = true) :
    d₁.session.machine.snapshot = d₂.session.machine.snapshot ∧ printed es₁ = printed es₂ := by
  obtain ⟨hfollows₁, -, hdone₁⟩ := follows_of_played (hc₁.follows hread hplaced) hd₁ hplain₁
  obtain ⟨hfollows₂, -, hdone₂⟩ := follows_of_played (hc₂.follows hread hplaced) hd₂ hplain₂
  rw [List.nil_append, List.nil_append] at hfollows₁ hfollows₂
  rw [List.nil_append] at hdone₁ hdone₂
  have hlength : d₁.session.machine.past.length = d₂.session.machine.past.length := by
    rcases hfar with hlength | ⟨hhalts₁, hhalts₂⟩
    · exact hlength
    · -- Neither has come further than the place where the other could go no further.
      obtain ⟨words₁, m₁, hprefix₁, hcourse₁, hhalted₁, hle₁⟩ := hdone₁ hhalts₁
      obtain ⟨words₂, m₂, hprefix₂, hcourse₂, hhalted₂, hle₂⟩ := hdone₂ hhalts₂
      have hle₂' := hcourse₁.le_of_halted hhalted₁ hfollows₂.course (hprefix₁.trans hnumbers₁)
        hnumbers₂
      have hle₁' := hcourse₂.le_of_halted hhalted₂ hfollows₁.course (hprefix₂.trans hnumbers₂)
        hnumbers₁
      exact Nat.le_antisymm (Nat.le_trans hle₁' hle₂) (Nat.le_trans hle₂' hle₁)
  have hsnapshot := hfollows₁.course.snapshot_eq hfollows₂.course hnumbers₁ hnumbers₂ hlength
  simp only [Machine.snapshot, Machine.changed, Core.behind, hfollows₁.quiet.output,
    hfollows₂.quiet.output, Snapshot.mk.injEq, List.append_nil] at hsnapshot ⊢
  obtain ⟨hpc, hx, hmemory, hprinted, hpast⟩ := hsnapshot
  exact ⟨⟨hpc, hx, hmemory, trivial, hpast⟩, congrArg Channel.buffer hprinted⟩

/-- A listing that reads a number, sends it back and divides by zero. -/
def askingListing : String :=
  "* 1: LOAD_I(2)\n* 2: INTERRUPT(0)\n* 3: LOAD(2)\n* 4: INTERRUPT(1)\n* 5: DIVIDE_I(0)\n"

/-- Ctrl-C comes with one change of the counter. -/
def askingFile (interrupted : Nat) : Surroundings where
  read _ := .ok askingListing
  interrupts := (· = interrupted)
  patience := 9

/-- One user runs the program and types the number. The other loads it by command, is interrupted,
leaves the program waiting, asks for what is refused, and runs it again. -/
theorem stepping_agrees_asking :
    ∃ c₁ c₂ d₁ d₂ es₁ es₂, Loaded 64 askingListing c₁ ∧ Loaded 64 askingListing c₂ ∧
      c₁.played [(askingFile 0, .line "run"), (askingFile 0, .line "7")] = some (es₁, d₁) ∧
      c₂.played ([.line "run", .line "next", .interrupt, .line "reset", .line "run",
        .line "7"].map fun typed => (askingFile 1, typed)) = some (es₂, d₂) ∧
      printed es₁ = [7] ∧ d₁.session.machine.snapshot = d₂.session.machine.snapshot ∧
      printed es₁ = printed es₂ := by
  have haccepted : (Program.read askingListing).toOption.map (fun p => (p.misplaced? 64).isNone)
      = some true := by decide +kernel
  have hone : (conversation (askingFile 0) 64 (some "a.lst")
      [(askingFile 0, .line "run"), (askingFile 0, .line "7")]).map (fun (_, es, _) =>
        ((accepted es).isPrefixOf [7], printed es, es.all (·.plain), es.any (·.halts)))
      = some (true, [7], true, true) := by decide +kernel
  have hother : (conversation (askingFile 1) 64 none ([.line "load a.lst", .line "run",
      .line "next", .interrupt, .line "reset", .line "run", .line "7"].map fun typed =>
        (askingFile 1, typed))).map (fun (_, es, _) =>
          ((accepted es.tail).isPrefixOf [7], es.tail.all (·.plain), es.tail.any (·.halts)))
      = some (true, true, true) := by decide +kernel
  have htext (n : Nat) : (askingFile n).text "a.lst" = .ok askingListing := rfl
  have hrequest : Request.ofLine "load a.lst" = .command .load ["a.lst".toList] := by
    decide +kernel
  obtain ⟨program, hread, hplaced⟩ := Option.map_eq_some_iff.1 haccepted
  obtain ⟨⟨response₁, es₁, d₁⟩, hconversation₁, heq₁⟩ := Option.map_eq_some_iff.1 hone
  obtain ⟨⟨response₂, es₂, d₂⟩, hconversation₂, heq₂⟩ := Option.map_eq_some_iff.1 hother
  simp only [Prod.mk.injEq, List.all_eq_true, List.any_eq_true, List.isPrefixOf_iff_prefix]
    at heq₁ heq₂
  obtain ⟨hnumbers₁, hprinted₁, hplain₁, hhalts₁⟩ := heq₁
  obtain ⟨hnumbers₂, hplain₂, hhalts₂⟩ := heq₂
  obtain ⟨c₁, hstart₁, hplayed₁⟩ := of_conversation hconversation₁
  obtain ⟨c, hstart, hplayed⟩ := of_conversation hconversation₂
  obtain ⟨c₂, response, es, hturn, hplayed₂, rfl⟩ := played_cons hplayed
  have hprompt : c.prompt = .command := by
    cases hstart
    rfl
  have hc₁ : Loaded 64 askingListing c₁ := .named (htext 0) hstart₁
  have hc₂ : Loaded 64 askingListing c₂ :=
    .commanded (.start hstart) hprompt hrequest (htext 1) hturn
  refine ⟨c₁, c₂, d₁, d₂, es₁, es, hc₁, hc₂, hplayed₁, hplayed₂, hprinted₁, ?_⟩
  exact stepping_agrees (eq_ok_of_toOption hread) (Option.isNone_iff_eq_none.1 hplaced) hc₁ hc₂
    hplayed₁ hplayed₂ hplain₁ hplain₂ hnumbers₁ hnumbers₂ (.inr ⟨hhalts₁, hhalts₂⟩)

end Console

end Backstep.Workbench
