import Backstep.Proofs.Workbench.Safety
/-!
# Turns

Whatever is typed at a prompt does one of two things to the session: it drives the machine, or it
leaves the machine to an operation that runs nothing. `Console.run?` says what is driven and at
which pace, and `Console.edit` what is done where nothing is. What is shown tells of the session
that the turn leaves: `Session.ending` after a run, `Console.comment` after anything else.
`turned_of_run` and `turned_of_edit` are all that later proofs need to know of the commands and of
the two prompts.
-/

namespace Backstep.Workbench

namespace Session

/-- The session after a number was typed for its program. -/
def given (s : Session) (value : Word) : Session :=
  (s.following (s.machine.access (.send .input value))).state

/-- The session after the words that its program put out were taken. -/
def drained (s : Session) : Session :=
  { s with machine := { s.machine with core := (s.machine.core.drain .output).1 } }

/-- What a command does that runs nothing. -/
def edit (s : Session) (w : Surroundings) (arguments : List (List Char)) :
    Command → Reply Session Unit
  | .undo => s.following s.machine.undo
  | .back => s.following s.machine.undoStatement
  | .reset => s.following s.machine.reset
  | .clear => (s.following (s.machine.access .clear)).map fun _ => ()
  | .load =>
    match arguments with
    | [] => ⟨s, .error (.problem { cause := .noFileNamed }), []⟩
    | file :: _ => s.loadFile w (String.ofList file)
  | _ => ⟨s, .ok (), []⟩

/-- What a command shows that runs nothing, once it has left the session so. -/
def view (s : Session) (arguments : List (List Char)) : Command → Except Failure String
  | .mem => do
    return (← Panel.words s.machine (← s.wordsToShow arguments)).text
  | .vars => (Panel.declarations s.machine).map (·.text)
  | .list =>
    match s.machine.program with
    | some p => .ok (Panel.code p s.machine.pc).text
    | none => .error (.problem { cause := .noProgram })
  | .hist => do
    return (Panel.executions s.machine (← executionsToShow arguments)).text
  | .ops => .ok Panel.catalog.text
  | .load => .ok (loaded s)
  | .help => .ok help
  | .quit => .ok ""
  | _ => .ok s.registers

/-- What is shown of a session in which a run has ended with an event. -/
def ending (s : Session) : Event → String
  | .stopped | .input => s.registers
  | .ended => s.registers ++ Text.bold "END" ++ "\n"

end Session

/-- A text, or else the complaint about what went wrong. -/
def told : Except Failure String → String
  | .ok text => text
  | .error (.problem p) => Console.complaint p
  | .error (.fault _) => ""

/-- The pace of a command that runs the program. -/
def Command.pace? : Command → Option Pace
  | .step => some .instruction
  | .next => some .statement
  | .run => some .program
  | _ => none

namespace Console

/-- The run that is begun by what is typed: of which session, and at which pace. -/
def run? (c : Console) (typed : Typed) : Option (Session × Pace) :=
  match c.prompt, typed with
  | .command, .line line =>
    match Request.ofLine line with
    | .command known _ => known.pace?.map fun pace => (c.session, pace)
    | _ => none
  | .value, .line line =>
    match readNumber line.toList with
    | .ok value => some (c.session.given value, c.session.pace)
    | .error _ => none
  | _, _ => none

/-- What is done to the session by something typed that begins no run. -/
def edit (c : Console) (w : Surroundings) (typed : Typed) : Reply Session Unit :=
  match c.prompt, typed with
  | .command, .line line =>
    match Request.ofLine line with
    | .command known arguments => c.session.edit w arguments known
    | _ => ⟨c.session, .ok (), []⟩
  | _, _ => ⟨c.session, .ok (), []⟩

/-- The number that is accepted, where one was asked for. -/
def accepted? (c : Console) (typed : Typed) : Option Word :=
  match c.prompt, typed with
  | .value, .line line => (readNumber line.toList).toOption
  | _, _ => none

/-- What is done to a new session before its first prompt. -/
def opening (w : Surroundings) (memorySize : Nat) : Option String → Reply Session Unit
  | none => ⟨.ofSize memorySize, .ok (), []⟩
  | some file => (Session.ofSize memorySize).loadFile w file

/-- What is shown in answer to something typed that begins no run. -/
def comment (c : Console) (w : Surroundings) (typed : Typed) : String :=
  match c.prompt, typed with
  | .command, .line line =>
    match Request.ofLine line with
    | .nothing => ""
    | .unknown word => complaint { cause := .unknownCommand word }
    | .command known arguments =>
      let r := c.session.edit w arguments known
      told (r.answer >>= fun _ => r.state.view arguments known)
  | .value, .line line => told ((readNumber line.toList).map fun _ => "")
  | _, _ => ""

/-- What comes of a turn in which a session was driven. -/
structure Ran (turn : Turn) (r : Reply Session Event) : Prop where
  console : ∃ asks, turn.console = some ⟨r.state.drained, asks⟩
  printed : turn.response.printed = r.state.machine.core.output.buffer
  shown : turn.response.shown = told (r.answer.map r.state.drained.ending)
  signals : ∃ sent, (∀ σ ∈ sent, σ.movesCounter = false) ∧
    turn.response.signals = sent ++ r.signals
  faultless : Faultless r.answer

/-- What comes of a turn in which something else was done to the session, if the user did not leave
it, and in which the text was shown. -/
structure Edited (turn : Turn) (r : Reply Session Unit) (text : String) : Prop where
  console : ∀ c, turn.console = some c → c.session = r.state ∧ turn.response.signals = r.signals
  printed : turn.response.printed = []
  shown : turn.response.shown = text

theorem ran_ofOutcome {r : Reply Session Event} {turn : Turn} {sent : List Signal}
    {remembered : List String} (hsent : ∀ σ ∈ sent, σ.movesCounter = false)
    (h : ofOutcome { Session.afterRun r with signals := sent ++ r.signals } remembered = .ok turn) :
    Ran turn r := by
  unfold ofOutcome Session.afterRun at h
  cases hanswer : r.answer with
  | ok event =>
    rw [hanswer] at h
    have hfaultless : Faultless r.answer := hanswer ▸ .ok
    cases event with
    | stopped | input | ended =>
      cases h
      exact ⟨⟨_, rfl⟩, rfl, by rw [hanswer]; rfl, ⟨sent, hsent, rfl⟩, hfaultless⟩
  | error failure =>
    rw [hanswer] at h
    cases failure with
    | fault f => cases h
    | problem p =>
      have hfaultless : Faultless r.answer := hanswer ▸ .problem
      cases h
      refine ⟨⟨_, rfl⟩, rfl, ?_, ⟨sent, hsent, rfl⟩, hfaultless⟩
      rw [hanswer]
      exact String.empty_append

variable {r : Reply Session Unit} {text : String} {remembered : List String} {response : Response}

theorem map_unit (r : Reply Session Unit) : (r.map fun _ => ()) = r := by
  obtain ⟨state, answer, signals⟩ := r
  cases answer <;> rfl

theorem edited_left (hprinted : response.printed = []) (hshown : response.shown = text) :
    Edited ⟨none, response⟩ r text := by
  refine ⟨?_, hprinted, hshown⟩
  intro c hc
  cases hc

theorem edited_goesOn {s : Session} {asks : Bool} (hsession : s = r.state)
    (hprinted : response.printed = []) (hsignals : response.signals = r.signals)
    (hshown : response.shown = text) : Edited ⟨some ⟨s, asks⟩, response⟩ r text := by
  refine ⟨?_, hprinted, hshown⟩
  intro c hc
  cases hc
  exact ⟨hsession, hsignals⟩

/-- An operation that has done what it was asked is followed by a text about what it has left. -/
theorem edited_showing {α : Type} {q : Reply Session α} {text : Session → String} {turn : Turn}
    (hr : r = q.map fun _ => ())
    (h : ofOutcome (Session.showing q text) remembered = .ok turn) :
    Edited turn r (told (r.answer >>= fun _ => .ok (text r.state))) := by
  subst hr
  obtain ⟨state, answer, signals⟩ := q
  unfold ofOutcome Session.showing at h
  cases answer with
  | ok a =>
    cases h
    exact edited_goesOn rfl rfl rfl rfl
  | error failure =>
    cases failure with
    | fault f => cases h
    | problem p =>
      cases h
      exact edited_goesOn rfl rfl rfl String.empty_append

/-- A text that is only shown. -/
theorem edited_print {text : Except Failure String} {turn : Turn} (hsignals : r.signals = [])
    (h : ofOutcome (r.state.print text) remembered = .ok turn) : Edited turn r (told text) := by
  unfold ofOutcome Session.print at h
  cases text with
  | ok text =>
    cases h
    exact edited_goesOn rfl rfl hsignals.symm rfl
  | error failure =>
    cases failure with
    | fault f => cases h
    | problem p =>
      cases h
      exact edited_goesOn rfl rfl hsignals.symm String.empty_append

variable {c : Console} {w : Surroundings} {typed : Typed} {turn : Turn}

/-- What is typed and begins a run drives its session, takes what it has put out, and goes on. -/
theorem turned_of_run {s : Session} {pace : Pace} (hrun : c.run? typed = some (s, pace))
    (hturn : c.respond w typed = .ok turn) : Ran turn (s.drive w pace) := by
  unfold run? at hrun
  unfold respond at hturn
  split at hrun
  · rename_i line hprompt
    simp only [hprompt, command] at hturn
    split at hrun
    · rename_i known arguments hrequest
      simp only [hrequest] at hturn
      cases known with
      | step | next | run =>
        cases hrun
        exact ran_ofOutcome (List.forall_mem_nil _) hturn
      | _ => cases hrun
    · cases hrun
  · rename_i line hprompt
    simp only [hprompt, number] at hturn
    cases hread : readNumber line.toList with
    | error failure => simp only [hread, reduceCtorEq] at hrun
    | ok value =>
      simp only [hread] at hturn hrun
      cases hrun
      refine ran_ofOutcome ?_ hturn
      exact List.forall_mem_map.2 fun _ _ => rfl
  · cases hrun

/-- A session is opened without putting anything out. -/
theorem turned_of_start {memorySize : Nat} {file? : Option String}
    (hstart : start w memorySize file? = .ok turn) :
    Edited turn (opening w memorySize file?)
      (told ((opening w memorySize file?).answer >>= fun _ => .ok "")) := by
  cases file? with
  | none =>
    cases hstart
    exact edited_goesOn rfl rfl rfl rfl
  | some file => exact edited_showing (map_unit _).symm hstart

/-- What is typed and begins no run is an edit of the session, and nothing is put out. -/
theorem turned_of_edit (hrun : c.run? typed = none) (hturn : c.respond w typed = .ok turn) :
    Edited turn (c.edit w typed) (c.comment w typed) := by
  unfold respond at hturn
  unfold edit comment
  unfold run? at hrun
  split at hturn
  · rename_i line hprompt
    simp only [hprompt, command] at hturn hrun ⊢
    cases hrequest : Request.ofLine line with
    | nothing | unknown word =>
      simp only [hrequest] at hturn
      cases hturn
      exact edited_goesOn rfl rfl rfl rfl
    | command known arguments =>
      simp only [hrequest] at hturn hrun
      simp only
      cases known with
      | step | next | run => cases hrun
      | undo | back | reset => exact edited_showing (map_unit _).symm hturn
      | clear => exact edited_showing rfl hturn
      | regs | mem | vars | list | hist | ops | help => exact edited_print rfl hturn
      | load =>
        cases arguments with
        | nil => exact edited_print rfl hturn
        | cons file _ => exact edited_showing (map_unit _).symm hturn
      | quit =>
        cases hturn
        exact edited_left rfl rfl
  · rename_i line hprompt
    simp only [hprompt, number] at hturn hrun ⊢
    cases hread : readNumber line.toList with
    | ok value => simp only [hread, reduceCtorEq] at hrun
    | error failure =>
      simp only [hread] at hturn
      cases failure with
      | fault f => cases hturn
      | problem p =>
        cases hturn
        exact edited_goesOn rfl rfl rfl rfl
  · rename_i hprompt
    simp only [hprompt]
    cases hturn
    exact edited_goesOn rfl rfl rfl rfl
  · -- The user leaves: neither prompt has got a line, and a number asked for is not called off.
    rename_i hcommand hvalue _
    cases hturn
    refine edited_left rfl ?_
    split
    · exact (hcommand _ ‹_› rfl).elim
    · exact (hvalue _ ‹_› rfl).elim
    · rfl

/-- A run is one of the session as it is, or of the one that has got the number typed. -/
theorem accepted?_of_run {s : Session} {pace : Pace} (hrun : c.run? typed = some (s, pace)) :
    (c.accepted? typed = none ∧ s = c.session) ∨
      ∃ value, c.accepted? typed = some value ∧ s = c.session.given value := by
  unfold run? at hrun
  unfold accepted?
  split at hrun
  · split at hrun
    · obtain ⟨_, -, hrun⟩ := Option.map_eq_some_iff.1 hrun
      cases hrun
      exact .inl ⟨by simp only [*], rfl⟩
    · cases hrun
  · rename_i line hprompt
    simp only [hprompt]
    cases hread : readNumber line.toList with
    | error failure => simp only [hread, reduceCtorEq] at hrun
    | ok value =>
      simp only [hread] at hrun
      cases hrun
      exact .inr ⟨value, rfl, rfl⟩
  · cases hrun

theorem accepted?_of_edit (hrun : c.run? typed = none) : c.accepted? typed = none := by
  unfold run? at hrun
  unfold accepted?
  split
  · rename_i line hprompt
    simp only [hprompt] at hrun
    cases hread : readNumber line.toList with
    | error failure => rfl
    | ok value => simp only [hread, reduceCtorEq] at hrun
  · rfl

end Console

/-! ### Changes of the program counter -/

namespace Session

/-- The session has counted the changes of the program counter that were signalled. -/
structure Counts {α : Type} (s : Session) (r : Reply Session α) : Prop where
  memorySize : r.state.memorySize = s.memorySize
  moves : r.state.moves = s.moves + r.signals.countP Signal.movesCounter

variable {s : Session}

theorem Counts.same {α : Type} {answer : Except Failure α} : s.Counts ⟨s, answer, []⟩ := ⟨rfl, rfl⟩

theorem counts_following {α : Type} (s : Session) (r : Reply Machine α) :
    s.Counts (s.following r) := ⟨rfl, rfl⟩

theorem counts_load (s : Session) (listing : String) : s.Counts (s.load listing) := by
  unfold load
  split
  · exact .same
  · split
    · exact .same
    · exact ⟨rfl, rfl⟩

theorem counts_loadFile (s : Session) (w : Surroundings) (file : String) :
    s.Counts (s.loadFile w file) := by
  unfold loadFile
  split
  · exact .same
  · exact s.counts_load _

theorem counts_edit (s : Session) (w : Surroundings) (arguments : List (List Char))
    (known : Command) : s.Counts (s.edit w arguments known) := by
  cases known with
  | undo | back | reset | clear => exact ⟨rfl, rfl⟩
  | load =>
    cases arguments with
    | nil => exact .same
    | cons file _ => exact s.counts_loadFile w _
  | step | next | run | regs | mem | vars | list | hist | ops | help | quit => exact .same

/-- A run that has counted so far counts to its end. -/
theorem counts_driveOn {base : Session} (w : Surroundings) (pace : Pace) (patience : Nat)
    (interrupted : Bool) {sent : Array Signal} (hsize : s.memorySize = base.memorySize)
    (hmoves : s.moves = base.moves + sent.toList.countP Signal.movesCounter) :
    base.Counts (driveOn w pace patience s interrupted sent) := by
  induction patience generalizing s interrupted sent with
  | zero => exact ⟨hsize, hmoves⟩
  | succ patience ih =>
    have hstep : (s.following s.machine.step).state.moves = base.moves
        + (sent ++ s.machine.step.signals).toList.countP Signal.movesCounter := by
      rw [Array.toList_appendList, List.countP_append, ← Nat.add_assoc, ← hmoves]
      rfl
    unfold driveOn
    simp only
    split
    · exact ⟨hsize, hmoves⟩
    · split
      · exact ⟨hsize, hmoves⟩
      · split
        · split
          · exact ⟨hsize, hstep⟩
          · exact ih _ hsize hstep
        · exact ⟨hsize, hstep⟩

theorem counts_drive (s : Session) (w : Surroundings) (pace : Pace) : s.Counts (s.drive w pace) :=
  counts_driveOn w pace _ false rfl rfl

theorem moves_given (s : Session) (value : Word) : (s.given value).moves = s.moves := by
  have hsent : (s.machine.access (.send .input value)).signals.countP Signal.movesCounter = 0 :=
    List.countP_eq_zero.2 (List.forall_mem_map.2 fun _ _ => Bool.false_ne_true)
  have hcounts := (s.counts_following (s.machine.access (.send .input value))).moves
  rw [given, hcounts]
  simp only [following, hsent, Nat.add_zero]

end Session

/-! ### Conversations -/

/-- What was typed at a console, in which surroundings, and what came of it. -/
structure Exchange where
  console : Console
  surroundings : Surroundings
  typed : Typed
  response : Response

namespace Console

/-- Everything that is said in so many turns, with the console after them, if each of them leads to
another prompt. -/
def played (c : Console) : List (Surroundings × Typed) → Option (List Exchange × Console)
  | [] => some ([], c)
  | (w, typed) :: rest =>
    match c.respond w typed with
    | .ok ⟨some c', response⟩ =>
      (c'.played rest).map fun (es, d) => (⟨c, w, typed, response⟩ :: es, d)
    | _ => none

/-- A conversation from its start: what is said before anything is typed, what is said in the turns,
and the console after them. -/
def conversation (w : Surroundings) (memorySize : Nat) (file? : Option String)
    (turns : List (Surroundings × Typed)) : Option (Response × List Exchange × Console) :=
  match start w memorySize file? with
  | .ok ⟨some c, response⟩ => (c.played turns).map fun (es, d) => (response, es, d)
  | _ => none

variable {c d : Console} {es : List Exchange}

theorem of_conversation {w : Surroundings} {memorySize : Nat} {file? : Option String} {turns}
    {response : Response} (h : conversation w memorySize file? turns = some (response, es, d)) :
    ∃ c, start w memorySize file? = .ok ⟨some c, response⟩ ∧ c.played turns = some (es, d) := by
  unfold conversation at h
  split at h
  · rename_i c response' hstart
    obtain ⟨⟨es', d'⟩, hplayed, heq⟩ := Option.map_eq_some_iff.1 h
    cases heq
    exact ⟨c, hstart, hplayed⟩
  · cases h

theorem played_cons {w : Surroundings} {typed : Typed} {rest : List (Surroundings × Typed)}
    (h : c.played ((w, typed) :: rest) = some (es, d)) :
    ∃ c' response es', c.respond w typed = .ok ⟨some c', response⟩ ∧
      c'.played rest = some (es', d) ∧ es = ⟨c, w, typed, response⟩ :: es' := by
  unfold played at h
  split at h
  · rename_i c' response hturn
    obtain ⟨⟨es', d'⟩, hrest, heq⟩ := Option.map_eq_some_iff.1 h
    cases heq
    exact ⟨c', response, es', hturn, hrest, rfl⟩
  · cases h

theorem Reached.played {memorySize : Nat} {file? : Option String} {turns}
    (hc : Reached memorySize file? c) (h : c.played turns = some (es, d)) :
    Reached memorySize file? d := by
  induction turns generalizing c es with
  | nil =>
    cases h
    exact hc
  | cons turn rest ih =>
    obtain ⟨c', response, es', hturn, hrest, -⟩ := played_cons h
    exact ih (.respond hc hturn) hrest

theorem reached_of_conversation {w : Surroundings} {memorySize : Nat} {file? : Option String}
    {turns} {response : Response}
    (h : conversation w memorySize file? turns = some (response, es, d)) :
    Reached memorySize file? d := by
  obtain ⟨c, hstart, hplayed⟩ := of_conversation h
  exact (Reached.start hstart).played hplayed

/-- What holds of a new session, is kept by whatever runs nothing, and holds after each run that is
begun at a prompt, once its output is taken, holds at every prompt. -/
theorem Reached.kept {memorySize : Nat} {file? : Option String} {P : Session → Prop}
    (hnew : P (.ofSize memorySize))
    (hedit : ∀ s w arguments known, P s → P (Session.edit s w arguments known).state)
    (hrun : ∀ c typed s pace w, Reached memorySize file? c → P c.session →
      c.run? typed = some (s, pace) → P (s.drive w pace).state.drained)
    (hc : Reached memorySize file? c) : P c.session := by
  induction hc with
  | @start w c response hstart =>
    rw [((turned_of_start hstart).console c rfl).1]
    cases file? with
    | none => exact hnew
    | some file =>
      have hload := hedit _ w [file.toList] .load hnew
      simpa only [Session.edit, String.ofList_toList, opening] using hload
  | @respond w c c' typed response hc hturn ih =>
    cases hbegun : c.run? typed with
    | some begun =>
      obtain ⟨s, pace⟩ := begun
      obtain ⟨asks, hconsole⟩ := (turned_of_run hbegun hturn).console
      cases hconsole
      exact hrun c typed s pace w hc ih hbegun
    | none =>
      rw [((turned_of_edit hbegun hturn).console c' rfl).1]
      unfold edit
      split
      · split
        · exact hedit _ _ _ _ ih
        · exact ih
      · exact ih

theorem memorySize_moves_respond {w : Surroundings} {typed : Typed} {c' : Console}
    {response : Response} (hturn : c.respond w typed = .ok ⟨some c', response⟩) :
    c'.session.memorySize = c.session.memorySize ∧
      c'.session.moves = c.session.moves + response.signals.countP Signal.movesCounter := by
  cases hrun : c.run? typed with
  | some begun =>
    obtain ⟨s, pace⟩ := begun
    obtain ⟨⟨asks, hconsole⟩, -, -, ⟨sent, hsent, hsignals⟩, -⟩ := turned_of_run hrun hturn
    have hcounts := s.counts_drive w pace
    have hsession : s.memorySize = c.session.memorySize ∧ s.moves = c.session.moves := by
      rcases accepted?_of_run hrun with ⟨-, rfl⟩ | ⟨value, -, rfl⟩
      · exact ⟨rfl, rfl⟩
      · exact ⟨rfl, c.session.moves_given value⟩
    have hquiet : sent.countP Signal.movesCounter = 0 :=
      List.countP_eq_zero.2 fun σ hσ => Bool.eq_false_iff.1 (hsent σ hσ)
    cases hconsole
    refine ⟨hcounts.memorySize.trans hsession.1, hcounts.moves.trans ?_⟩
    rw [hsession.2, hsignals, List.countP_append, hquiet, Nat.zero_add]
  | none =>
    obtain ⟨hsession, hsignals⟩ := (turned_of_edit hrun hturn).console c' rfl
    have hcounts : c.session.Counts (c.edit w typed) := by
      unfold edit
      split
      · split
        · exact c.session.counts_edit _ _ _
        · exact .same
      · exact .same
    rw [hsession, hsignals]
    exact ⟨hcounts.memorySize, hcounts.moves⟩

theorem memorySize_moves_start {w : Surroundings} {memorySize : Nat} {file? : Option String}
    {response : Response} (hstart : start w memorySize file? = .ok ⟨some c, response⟩) :
    c.session.memorySize = memorySize ∧
      c.session.moves = response.signals.countP Signal.movesCounter := by
  obtain ⟨hsession, hsignals⟩ := (turned_of_start hstart).console c rfl
  have hcounts : (Session.ofSize memorySize).Counts (opening w memorySize file?) := by
    cases file? with
    | none => exact .same
    | some file => exact (Session.ofSize memorySize).counts_loadFile w file
  rw [hsession, hsignals]
  exact ⟨hcounts.memorySize, hcounts.moves.trans (Nat.zero_add _)⟩

theorem Reached.memorySize {memorySize : Nat} {file? : Option String}
    (hc : Reached memorySize file? c) : c.session.memorySize = memorySize := by
  induction hc with
  | start hstart => exact (memorySize_moves_start hstart).1
  | respond _ hturn ih => exact (memorySize_moves_respond hturn).1.trans ih

theorem moves_played {turns} (h : c.played turns = some (es, d)) :
    d.session.moves = c.session.moves
      + (es.flatMap (·.response.signals)).countP Signal.movesCounter := by
  induction turns generalizing c es with
  | nil =>
    cases h
    rfl
  | cons turn rest ih =>
    obtain ⟨c', response, es', hturn, hrest, rfl⟩ := played_cons h
    rw [ih hrest, (memorySize_moves_respond hturn).2, List.flatMap_cons, List.countP_append,
      Nat.add_assoc]

/-- The changes of the program counter are counted over the whole conversation. -/
theorem moves_conversation {w : Surroundings} {memorySize : Nat} {file? : Option String} {turns}
    {response : Response} (h : conversation w memorySize file? turns = some (response, es, d)) :
    d.session.moves
      = (response.signals ++ es.flatMap (·.response.signals)).countP Signal.movesCounter := by
  obtain ⟨c, hstart, hplayed⟩ := of_conversation h
  rw [moves_played hplayed, (memorySize_moves_start hstart).2, List.countP_append]

end Console

end Backstep.Workbench
