import Backstep.Proofs.Machine.Output
import Backstep.Proofs.Text.Numeral
import Backstep.Proofs.Workbench.Drive
/-!
# Program output

The words that a program puts out are printed at the end of the turn in which it was driven. What
stands in the output is what the steps of the drive have said, since it was empty before; and every
drive is followed by taking all of it, so it is empty at every prompt. Nothing else that is typed
puts anything out.

What is written in a turn is told to the last character: the words, one to a line, and behind them
what the workbench shows of the session that the turn leaves.
-/

namespace Backstep.Workbench

/-- The text has each of the words on a line of its own, in their order, and the comment behind
them. -/
structure Writes (out : String) (words : List Word) (comment : String) : Prop where
  exact : out = String.join (words.map fun w => toString w.toInt ++ "\n") ++ comment
  lines : out.toList.splitOn '\n'
    = words.map (fun w => (toString w.toInt).toList) ++ comment.toList.splitOn '\n'

theorem Response.writes_out (r : Response) : Writes r.out r.printed r.shown := by
  refine ⟨rfl, ?_⟩
  rw [out, String.toList_append, Text.toList_join_lines, Text.splitOn_lines_append]
  intro line hline hbreak
  obtain ⟨w, -, rfl⟩ := List.mem_map.1 hline
  rcases Numeral.mem_toString_int hbreak with hdigit | hminus
  · cases hdigit
  · cases hminus

namespace Session

/-- What holds of a session at a prompt: its machine has no reader but the READ that waits, and
nothing stands in the output. -/
structure Quiet (s : Session) : Prop where
  attentive : s.machine.Attentive
  output : s.machine.core.output = {}

namespace Quiet

variable {s : Session}

theorem ofSize (memorySize : Nat) : (ofSize memorySize).Quiet := by
  refine ⟨⟨.idle rfl rfl, ?_⟩, rfl⟩
  intro s hwaits
  cases hwaits

theorem unread (h : s.Quiet) : s.machine.Unread := by
  rw [Machine.Unread, Machine.said, h.output]

theorem of_goesBack (h : s.Quiet) {o : Operation} (ho : o.goesBack = true) :
    Machine.Attentive (s.machine.perform 0 o).state ∧
      (s.machine.perform 0 o).state.core.output = {} := by
  have hback : ∀ d ∈ s.machine.deeds 0 o, d = .takeBack := Machine.back_deeds ho _ 0
  rw [Machine.state_perform]
  refine ⟨h.attentive.afterDeeds ?_, (Machine.output_afterDeeds hback).trans h.output⟩
  intro d hd
  rw [hback d hd]
  rfl

theorem load (h : s.Quiet) (listing : String) : (s.load listing).state.Quiet := by
  unfold Session.load
  split
  · exact h
  · split
    · exact h
    · exact ⟨Machine.attentive_load _ _, rfl⟩

theorem loadFile (h : s.Quiet) (w : Surroundings) (file : String) :
    (s.loadFile w file).state.Quiet := by
  unfold Session.loadFile
  split
  · exact h
  · exact h.load _

theorem edit (h : s.Quiet) (w : Surroundings) (arguments : List (List Char)) (known : Command) :
    (s.edit w arguments known).state.Quiet := by
  cases known with
  | undo =>
    obtain ⟨hattentive, houtput⟩ := h.of_goesBack (o := .undo) rfl
    exact ⟨hattentive, houtput⟩
  | back =>
    obtain ⟨hattentive, houtput⟩ := h.of_goesBack (o := .undoStatement) rfl
    exact ⟨hattentive, houtput⟩
  | reset =>
    obtain ⟨hattentive, houtput⟩ := h.of_goesBack (o := .reset) rfl
    exact ⟨hattentive, houtput⟩
  | clear =>
    have hspares : ∀ d ∈ [Deed.access .clear], d.sparesInput = true :=
      List.forall_mem_singleton.2 rfl
    exact ⟨h.attentive.afterDeeds hspares, h.output⟩
  | load =>
    cases arguments with
    | nil => exact h
    | cons file _ => exact h.loadFile w _
  | step | next | run | regs | mem | vars | list | hist | ops | help | quit => exact h

theorem given (h : s.Quiet) (value : Word) : (s.given value).Quiet :=
  ⟨(h.attentive.feed value).1, h.output⟩

/-- After so many steps the output holds what they have said, and nothing once that is taken. -/
theorem ended (h : s.Quiet) {k : Nat} {r : Reply Session Event} (hends : s.Ends k r) :
    r.state.machine.core.output = { buffer := s.machine.uttered k } ∧
      r.state.drained.machine = (s.machine.stepped k).withOutput {} ∧ r.state.drained.Quiet := by
  obtain ⟨hattentive, hunread, hsaid⟩ := Machine.said_stepped h.attentive h.unread k
  have houtput : r.state.machine.core.output = { buffer := s.machine.uttered k } := by
    rw [hends.machine, hunread, hsaid, Machine.said, h.output]
    rfl
  have hdrained : r.state.drained.machine = (s.machine.stepped k).withOutput {} := by
    simp only [drained, Core.drain, Channel.drain, Core.channel, Core.setChannel, houtput]
    rw [hends.machine]
    rfl
  refine ⟨houtput, hdrained, ?_, congrArg (·.core.output) hdrained⟩
  rw [hdrained]
  exact hattentive.of_access rfl rfl rfl

theorem drive (h : s.Quiet) (w : Surroundings) (pace : Pace) :
    ∃ k, s.Ends k (s.drive w pace) ∧
      (s.drive w pace).state.machine.core.output = { buffer := s.machine.uttered k } ∧
      (s.drive w pace).state.drained.machine = (s.machine.stepped k).withOutput {} ∧
      (s.drive w pace).state.drained.Quiet := by
  obtain ⟨k, hends⟩ := s.ends_drive w pace
  exact ⟨k, hends, h.ended hends⟩

end Quiet

end Session

namespace Console

theorem Ran.writes {turn : Turn} {r : Reply Session Event} (h : Ran turn r) :
    Writes turn.response.out r.state.machine.core.output.buffer
      (told (r.answer.map r.state.drained.ending)) := by
  have hout := turn.response.writes_out
  rwa [h.printed, h.shown] at hout

theorem Edited.out {turn : Turn} {r : Reply Session Unit} {text : String} (h : Edited turn r text) :
    turn.response.out = text := by
  have hout := turn.response.writes_out.exact
  rw [h.printed, h.shown] at hout
  exact hout.trans String.empty_append

theorem Edited.quiet {turn : Turn} {r : Reply Session Unit} {text : String} (h : Edited turn r text)
    (hquiet : r.state.Quiet) : ∀ c, turn.console = some c → c.session.Quiet := by
  intro c hc
  rw [(h.console c hc).1]
  exact hquiet

theorem quiet_opening (w : Surroundings) (memorySize : Nat) (file? : Option String) :
    (opening w memorySize file?).state.Quiet := by
  cases file? with
  | none => exact .ofSize memorySize
  | some file => exact (Session.Quiet.ofSize memorySize).loadFile w file

theorem quiet_edit {c : Console} (h : c.session.Quiet) (w : Surroundings) (typed : Typed) :
    (c.edit w typed).state.Quiet := by
  unfold edit
  split
  · split
    · exact h.edit _ _ _
    · exact h
  · exact h

theorem quiet_run? {c : Console} (h : c.session.Quiet) {typed : Typed} {s : Session} {pace : Pace}
    (hrun : c.run? typed = some (s, pace)) : s.Quiet := by
  rcases accepted?_of_run hrun with ⟨-, rfl⟩ | ⟨value, -, rfl⟩
  · exact h
  · exact h.given value

/-- What a turn prints and writes: if it has a run, the words that the steps of the run have said,
and how the run ended. -/
structure Prints (c : Console) (w : Surroundings) (typed : Typed) (turn : Turn) : Prop where
  silent : c.run? typed = none →
    turn.response.printed = [] ∧ turn.response.out = c.comment w typed
  ran : ∀ s pace, c.run? typed = some (s, pace) → ∃ k c', turn.console = some c' ∧
    c'.session.machine = (s.machine.stepped k).withOutput {} ∧
    turn.response.printed = s.machine.uttered k ∧
    Writes turn.response.out (s.machine.uttered k)
      (told ((s.drive w pace).answer.map c'.session.ending))
  quiet : ∀ c', turn.console = some c' → c'.session.Quiet

theorem prints_respond {c : Console} (h : c.session.Quiet) {w : Surroundings} {typed : Typed}
    {turn : Turn} (hturn : c.respond w typed = .ok turn) : c.Prints w typed turn := by
  cases hrun : c.run? typed with
  | none =>
    have hedited := turned_of_edit hrun hturn
    refine ⟨fun _ => ⟨hedited.printed, hedited.out⟩, ?_, hedited.quiet (quiet_edit h w typed)⟩
    intro s pace hsome
    cases hrun.symm.trans hsome
  | some begun =>
    obtain ⟨s, pace⟩ := begun
    have hran := turned_of_run hrun hturn
    obtain ⟨asks, hconsole⟩ := hran.console
    obtain ⟨k, -, houtput, hmachine, hquiet⟩ := (quiet_run? h hrun).drive w pace
    have hsaid : (s.drive w pace).state.machine.core.output.buffer = s.machine.uttered k := by
      rw [houtput]
    refine ⟨?_, ?_, ?_⟩
    · intro hnone
      cases hrun.symm.trans hnone
    · intro s' pace' hsome
      cases hrun.symm.trans hsome
      exact ⟨k, _, hconsole, hmachine, hran.printed.trans hsaid, hsaid ▸ hran.writes⟩
    · intro c' hc'
      rw [hconsole] at hc'
      cases hc'
      exact hquiet

theorem Reached.quiet {memorySize : Nat} {file? : Option String} {c : Console}
    (hc : Reached memorySize file? c) : c.session.Quiet := by
  induction hc with
  | start hstart => exact (turned_of_start hstart).quiet (quiet_opening _ _ _) _ rfl
  | respond _ hturn ih => exact (prints_respond ih hturn).quiet _ rfl

/-- Nothing is printed before the first prompt, and at every prompt the output of the machine is
empty. A turn that drives a session takes the machine some steps on. It writes the word that was in
X at each WRITE that these steps complete, in decimal and one to a line, and behind these words only
the registers and `END`, or what the problem was. Any other turn prints nothing: all that it writes
is its comment, a text about the session that it leaves. -/
theorem printed_once (memorySize : Nat) (file? : Option String) :
    (∀ w turn, start w memorySize file? = .ok turn → turn.response.printed = [] ∧
        turn.response.out = told ((opening w memorySize file?).answer >>= fun _ => .ok "")) ∧
      ∀ c, Reached memorySize file? c → c.session.machine.core.output = {} ∧
        ∀ w typed turn, c.respond w typed = .ok turn →
          match c.run? typed with
          | none => turn.response.printed = [] ∧ turn.response.out = c.comment w typed
          | some (s, pace) => ∃ k c', turn.console = some c' ∧
              c'.session.machine = (s.machine.stepped k).withOutput {} ∧
              turn.response.printed = s.machine.uttered k ∧
              Writes turn.response.out (s.machine.uttered k)
                (told ((s.drive w pace).answer.map c'.session.ending)) := by
  refine ⟨fun w turn hstart => ?_, fun c hc => ⟨hc.quiet.output, ?_⟩⟩
  · have hopened := turned_of_start hstart
    exact ⟨hopened.printed, hopened.out⟩
  · intro w typed turn hturn
    have hprints := prints_respond hc.quiet hturn
    split
    · rename_i hrun
      exact hprints.silent hrun
    · rename_i s pace hrun
      exact hprints.ran s pace hrun

/-- A file that sends a number, reads one and sends it back, and divides by zero. -/
def echoFile : Surroundings where
  read _ := .ok ("* 1: LOAD_I(2)\n* 2: INTERRUPT(1)\n* 3: INTERRUPT(0)\n"
    ++ "* 4: LOAD(2)\n* 5: INTERRUPT(1)\n* 6: DIVIDE_I(0)\n")
  patience := 20

theorem printed_once_echo :
    ∃ c turn s pace, Reached 64 (some "a.lst") c ∧
      c.respond echoFile (.line "7") = .ok turn ∧ c.run? (.line "7") = some (s, pace) ∧
      turn.response.printed = [7] ∧ (∃ k, s.machine.uttered k = [7]) ∧
      Writes turn.response.out [7]
        (complaint { cause := .divisionByZero, line := some 6, index := some 5 }) := by
  have hecho : (conversation echoFile 64 (some "a.lst") [(echoFile, .line "run")]).map
      (fun (_, _, c) => (((c.respond echoFile (.line "7")).toOption.map (·.response.printed)),
        (c.run? (.line "7")).map fun (s, pace) => failure? (s.drive echoFile pace).answer))
      = some (some [7],
          some (some (.problem { cause := .divisionByZero, line := some 6, index := some 5 }))) := by
    decide +kernel
  obtain ⟨⟨response, es, c⟩, hconversation, heq⟩ := Option.map_eq_some_iff.1 hecho
  obtain ⟨hturn, hdriven⟩ := Prod.mk.inj heq
  obtain ⟨turn, hturn, hprinted⟩ := Option.map_eq_some_iff.1 hturn
  obtain ⟨⟨s, pace⟩, hrun, hfailure⟩ := Option.map_eq_some_iff.1 hdriven
  have hturn' : c.respond echoFile (.line "7") = .ok turn := eq_ok_of_toOption hturn
  have hreached := reached_of_conversation hconversation
  have hturns := ((printed_once 64 (some "a.lst")).2 c hreached).2 echoFile (.line "7") turn hturn'
  simp only [hrun] at hturns
  obtain ⟨k, c', -, -, hsaid, hwrites⟩ := hturns
  have huttered : s.machine.uttered k = [7] := hsaid.symm.trans hprinted
  rw [huttered, eq_error_of_failure? hfailure] at hwrites
  exact ⟨c, turn, s, pace, hreached, hturn', hrun, hprinted, ⟨k, huttered⟩, hwrites⟩

end Console

end Backstep.Workbench
