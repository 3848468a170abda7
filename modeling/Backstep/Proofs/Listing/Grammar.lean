import Backstep.Proofs.Listing.Composition
import Backstep.Proofs.Text.Spelling
/-!
# The grammar of an instruction line

An instruction line is, with white space around each piece: an optional `*`, a number, `:`, a name,
`(`, operands between commas, `)`. A piece between two commas may be left out. The name is a
mnemonic that takes as many operands as are there, or a number behind `#`, which takes any. `Line`
says so without a reader. The reader, which looks for the first `:`, the first `(` and the last `)`,
accepts exactly the lines of the grammar: no part of a line can hold the mark that ends it.
-/

namespace Backstep

namespace Listing

open Text (Solid trim trimStart trimEnd isBlank)
open Problem (Cause)

/-! ### The grammar -/

/-- White space and nothing else. -/
def Blank (cs : List Char) : Prop := ∀ c ∈ cs, isBlank c = true

/-- The piece with white space around it. -/
inductive Padded (piece : List Char) : List Char → Prop
  | intro {before after : List Char} (hbefore : Blank before) (hafter : Blank after) :
      Padded piece (before ++ piece ++ after)

/-- What stands between commas: operands, and blank pieces that do not count. -/
inductive Operands : List (List Char) → List Word → Prop
  | none : Operands [] []
  | blank {cs : List Char} {rest : List (List Char)} {operands : List Word} (hblank : Blank cs)
      (hrest : Operands rest operands) : Operands (cs :: rest) operands
  | operand {piece cs : List Char} {z : Int} {rest : List (List Char)} {operands : List Word}
      (hnumber : Numeral.Operand piece z) (hpadded : Padded piece cs)
      (hrest : Operands rest operands) : Operands (cs :: rest) (Int64.ofInt z :: operands)

/-- The name of the operation of the code, before so many operands. -/
inductive Name (count : Nat) : List Char → UInt8 → Prop
  | mnemonic {op : Opcode} (harity : count = op.arity) : Name count op.mnemonic.toList op.code
  | number {digits : List Char} {n : Nat} (hnumber : Numeral.Natural 10 256 digits n) :
      Name count ('#' :: digits) (.ofNat n)

inductive Call : List Char → Instruction → Prop
  | intro {piece name after : List Char} {pieces : List (List Char)} {operands : List Word}
      {code : UInt8} (hname : Name operands.length piece code) (hpadded : Padded piece name)
      (hoperands : Operands pieces operands) (hafter : Blank after) :
      Call (name ++ '(' :: ([','].intercalate pieces ++ ')' :: after)) ⟨code, operands⟩

inductive Numbered : List Char → Nat → Instruction → Prop
  | intro {piece number call : List Char} {n : Nat} {i : Instruction}
      (hnumber : Numeral.Unsigned piece n) (hpadded : Padded piece number) (hcall : Call call i) :
      Numbered (number ++ ':' :: call) n i

/-- An instruction line, with whether a statement starts there, its source line and its
instruction. -/
inductive Line : List Char → Bool → Nat → Instruction → Prop
  | within {cs : List Char} {n : Nat} {i : Instruction} (hnumbered : Numbered cs n i) :
      Line cs false n i
  | start {mark cs : List Char} {n : Nat} {i : Instruction} (hpadded : Padded ['*'] mark)
      (hnumbered : Numbered cs n i) : Line (mark ++ cs) true n i

/-! ### Pieces and marks -/

/-- The character is neither blank nor a mark. -/
def Plain (c : Char) : Prop := isBlank c = false ∧ c ∉ ['*', ':', '(', ',', ')']

variable {piece cs : List Char} {c : Char}

theorem Blank.not_mem (h : Blank cs) (hc : isBlank c = false) : c ∉ cs := by
  intro hmem
  rw [h c hmem] at hc
  cases hc

theorem padded_trim (cs : List Char) : Padded (trim cs) cs := by
  obtain ⟨before, after, hbefore, hafter, hcs⟩ := Text.exists_append_trim_append cs
  have hpadded : Padded (trim cs) (before ++ trim cs ++ after) := .intro hbefore hafter
  rwa [← hcs] at hpadded

theorem Padded.trim (h : Padded piece cs) (hsolid : Solid piece) : trim cs = piece := by
  cases h with
  | intro hbefore hafter =>
    rw [hsolid.trim_append_append hbefore, Text.trimEnd_of_blank hafter, List.append_nil]

/-- A mark does not stand in a piece or around it. -/
theorem Padded.not_mem (h : Padded piece cs) (hc : isBlank c = false) (hpiece : c ∉ piece) :
    c ∉ cs := by
  cases h with
  | intro hbefore hafter =>
    rw [List.mem_append, List.mem_append]
    rintro ((hmem | hmem) | hmem)
    · exact hbefore.not_mem hc hmem
    · exact hpiece hmem
    · exact hafter.not_mem hc hmem

theorem solid_of_plain (hfull : cs ≠ []) (h : ∀ c ∈ cs, Plain c) : Solid cs :=
  ⟨hfull, fun c hc => (h c hc).1⟩

theorem not_mem_of_plain (h : ∀ c ∈ cs, Plain c) (hmark : c ∈ ['*', ':', '(', ',', ')']) :
    c ∉ cs := fun hmem => (h c hmem).2 hmark

theorem plain_of_digit : ∀ k < 128, (Numeral.digit? 16 (Char.ofNat k)).isSome = true →
    isBlank (Char.ofNat k) = false ∧ Char.ofNat k ∉ ['*', ':', '(', ',', ')'] := by decide +kernel

end Listing

namespace Numeral

open Listing (Plain)

variable {cs : List Char} {n : Nat} {z : Int} {c : Char}

theorem plain_of_isSome (h : (digit? 16 c).isSome = true) : Plain c := by
  obtain ⟨d, hd⟩ := Option.isSome_iff_exists.1 h
  have hplain := Listing.plain_of_digit c.toNat (toNat_lt_of_digit? hd)
  rw [Char.ofNat_toNat] at hplain
  exact hplain h

theorem Unsigned.plain (h : Unsigned cs n) : ∀ c ∈ cs, Plain c := by
  intro c hc
  rcases h.mem hc with rfl | rfl | hdigit
  · exact ⟨by decide, by decide⟩
  · exact ⟨by decide, by decide⟩
  · exact plain_of_isSome hdigit

theorem Natural.plain {limit : Nat} (h : Natural 10 limit cs n) : ∀ c ∈ cs, Plain c := by
  intro c hc
  rcases h.mem (by decide) hc with rfl | hdigit
  · exact ⟨by decide, by decide⟩
  · exact plain_of_isSome (isSome_digit?_sixteen (by decide) hdigit)

theorem Operand.plain (h : Operand cs z) : ∀ c ∈ cs, Plain c := by
  cases h with
  | unsigned hnumber => exact hnumber.plain
  | negative hnumber => exact List.forall_mem_cons.2 ⟨⟨by decide, by decide⟩, hnumber.plain⟩

theorem Natural.ne_nil {base limit : Nat} (h : Natural base limit cs n) : cs ≠ [] := by
  cases h with
  | bare hdigits => exact hdigits.ne_nil
  | plus => exact List.cons_ne_nil _ _

theorem Unsigned.ne_nil (h : Unsigned cs n) : cs ≠ [] := by
  cases h with
  | decimal hnumber => exact hnumber.ne_nil
  | hexadecimal => exact List.cons_ne_nil _ _

theorem Operand.ne_nil (h : Operand cs z) : cs ≠ [] := by
  cases h with
  | unsigned hnumber => exact hnumber.ne_nil
  | negative => exact List.cons_ne_nil _ _

theorem Unsigned.solid (h : Unsigned cs n) : Text.Solid cs :=
  Listing.solid_of_plain h.ne_nil h.plain

theorem Operand.solid (h : Operand cs z) : Text.Solid cs :=
  Listing.solid_of_plain h.ne_nil h.plain

end Numeral

namespace Listing

open Text (Solid trim trimStart trimEnd isBlank)
open Problem (Cause)

variable {cs piece : List Char} {operands : List Word} {i : Instruction}

theorem Name.plain {count : Nat} {code : UInt8} (h : Name count cs code) : ∀ c ∈ cs, Plain c := by
  cases h with
  | @mnemonic op =>
    intro c hc
    have hrange := op.mem_mnemonic c hc
    refine ⟨Text.isBlank_of_printable (by omega) (by omega), fun hmark => ?_⟩
    have hbelow : (['*', ':', '(', ',', ')'].all fun m => m.toNat < 65) = true := rfl
    have hlow := of_decide_eq_true (List.all_eq_true.1 hbelow c hmark)
    omega
  | number hnumber => exact List.forall_mem_cons.2 ⟨⟨by decide, by decide⟩, hnumber.plain⟩

theorem Name.solid {count : Nat} {code : UInt8} (h : Name count cs code) : Solid cs := by
  refine solid_of_plain ?_ h.plain
  cases h with
  | @mnemonic op => exact fun hnil => op.mnemonic_ne_empty (String.toList_eq_nil_iff.1 hnil)
  | number => exact List.cons_ne_nil _ _

/-! ### Operands -/

theorem eq_ok_of_orReport {α : Type} {cause : Cause} {a? : Option α} {a : α} :
    orReport cause a? = .ok a ↔ a? = some a := by
  cases a? <;> simp [orReport]

/-- The operands of pieces between commas. -/
def readPieces (pieces : List (List Char)) : Except Cause (List Word) :=
  ((pieces.map trim).filter (!·.isEmpty)).mapM readOperand

theorem readPieces_of_blank {rest : List (List Char)} (h : trim cs = []) :
    readPieces (cs :: rest) = readPieces rest := by
  rw [readPieces, List.map_cons, h, List.filter_cons_of_neg (by simp)]
  rfl

theorem readPieces_of_full {rest : List (List Char)} (h : trim cs ≠ []) :
    readPieces (cs :: rest)
      = readOperand (trim cs) >>= fun w => (w :: ·) <$> readPieces rest := by
  rw [readPieces, List.map_cons, List.filter_cons_of_pos (by simpa using h), List.mapM_cons]
  rfl

theorem readOperand_eq_ok_iff {w : Word} :
    readOperand cs = .ok w ↔ ∃ z, Numeral.Operand cs z ∧ Int64.ofInt z = w := by
  rw [readOperand, eq_ok_of_orReport, Numeral.operand?_eq_some_iff]

theorem readPieces_eq_ok_iff {pieces : List (List Char)} :
    readPieces pieces = .ok operands ↔ Operands pieces operands := by
  constructor
  · intro hread
    induction pieces generalizing operands with
    | nil =>
      cases hread
      exact .none
    | cons cs rest ih =>
      by_cases hblank : trim cs = []
      · rw [readPieces_of_blank hblank] at hread
        exact .blank (Text.blank_of_trim_eq_nil hblank) (ih hread)
      · rw [readPieces_of_full hblank] at hread
        obtain ⟨w, hw, hread⟩ := ok_of_bind hread
        obtain ⟨ws, hrest, rfl⟩ := ok_of_map hread
        obtain ⟨z, hnumber, rfl⟩ := readOperand_eq_ok_iff.1 hw
        exact .operand hnumber (padded_trim cs) (ih hrest)
  · intro hoperands
    induction hoperands with
    | none => rfl
    | blank hblank _ ih => rw [readPieces_of_blank (Text.trim_of_blank hblank), ih]
    | @operand piece cs z rest operands hnumber hpadded _ ih =>
      have htrim := hpadded.trim hnumber.solid
      have hread := readOperand_eq_ok_iff.2 ⟨z, hnumber, rfl⟩
      rw [readPieces_of_full (htrim.symm ▸ hnumber.ne_nil), htrim, hread, ih]
      rfl

theorem Operands.not_mem {pieces : List (List Char)} (h : Operands pieces operands) :
    ∀ cs ∈ pieces, ',' ∉ cs := by
  induction h with
  | none => exact List.forall_mem_nil _
  | blank hblank _ ih => exact List.forall_mem_cons.2 ⟨hblank.not_mem (by decide), ih⟩
  | operand hnumber hpadded _ ih =>
    have hcomma := not_mem_of_plain hnumber.plain (c := ',') (by decide)
    exact List.forall_mem_cons.2 ⟨hpadded.not_mem (by decide) hcomma, ih⟩

theorem readOperands_eq_ok_iff : readOperands cs = .ok operands ↔
    ∃ pieces, Operands pieces operands ∧ cs = [','].intercalate pieces := by
  have hpieces : readOperands cs = readPieces (cs.splitOn ',') := rfl
  rw [hpieces, readPieces_eq_ok_iff]
  constructor
  · exact fun hoperands => ⟨_, hoperands, (List.intercalate_splitOn ',').symm⟩
  · rintro ⟨pieces, hoperands, rfl⟩
    by_cases hnone : pieces = []
    · -- Without a piece the text is empty, which reads as one blank piece.
      subst hnone
      exact .blank (List.forall_mem_nil _) hoperands
    · rwa [List.splitOn_intercalate ',' hoperands.not_mem hnone]

/-! ### Names and calls -/

theorem ofMnemonic?_eq_some_iff {name : String} {op : Opcode} :
    Opcode.ofMnemonic? name = some op ↔ op.mnemonic = name := by
  constructor
  · intro hfound
    have hname : (op.mnemonic == name) = true :=
      List.find?_some (p := fun op : Opcode => op.mnemonic == name) hfound
    exact eq_of_beq hname
  · rintro rfl
    exact op.ofMnemonic?_mnemonic

theorem named_eq_ok_iff : named cs operands = .ok i ↔
    ∃ code, Name operands.length cs code ∧ i = ⟨code, operands⟩ := by
  constructor
  · intro hread
    unfold named at hread
    split at hread
    · obtain ⟨code, hcode, hread⟩ := ok_of_bind hread
      cases hread
      obtain ⟨n, hnumber, rfl⟩ := Numeral.byte?_eq_some_iff.1 (eq_ok_of_orReport.1 hcode)
      exact ⟨_, .number hnumber, rfl⟩
    · obtain ⟨op, hop, hread⟩ := ok_of_bind hread
      have hname := congrArg String.toList (ofMnemonic?_eq_some_iff.1 (eq_ok_of_orReport.1 hop))
      rw [String.toList_ofList] at hname
      have hof := eq_ok_of_orReport.1 hread
      unfold Instruction.of? at hof
      split at hof
      · rename_i harity
        cases hof
        exact ⟨op.code, hname ▸ .mnemonic harity, rfl⟩
      · cases hof
  · rintro ⟨code, hname, rfl⟩
    cases hname with
    | @mnemonic op harity =>
      have hop : Instruction.op? ⟨op.code, operands⟩ = some op := op.ofCode?_code
      have hmnemonic : Instruction.mnemonic ⟨op.code, operands⟩ = op.mnemonic := by
        rw [Instruction.mnemonic, hop]
      have hcounted : Instruction.Counted ⟨op.code, operands⟩ := fun op' hop' => by
        cases hop.symm.trans hop'
        exact harity
      rw [← hmnemonic]
      exact named_of_counted hcounted
    | @number digits n hnumber =>
      rw [named, Numeral.byte?_eq_some_iff.2 ⟨n, hnumber, rfl⟩]
      rfl

theorem readCall_eq_ok_iff : readCall cs = .ok i ↔ Call cs i := by
  constructor
  · intro hread
    obtain ⟨⟨name, inner⟩, hopening, hread⟩ := ok_of_bind hread
    obtain ⟨⟨list, after⟩, hclosing, hread⟩ := ok_of_bind hread
    have hcs := eq_of_cutFirst? (eq_ok_of_orReport.1 hopening)
    have hinner := eq_of_cutLast? (eq_ok_of_orReport.1 hclosing)
    simp only at hread
    split at hread
    · rename_i hafter
      obtain ⟨operands, hlist, hnamed⟩ := ok_of_bind hread
      obtain ⟨pieces, hoperands, rfl⟩ := readOperands_eq_ok_iff.1 hlist
      obtain ⟨code, hname, rfl⟩ := named_eq_ok_iff.1 hnamed
      rw [hcs, hinner]
      exact .intro hname (padded_trim name) hoperands
        (Text.blank_of_trim_eq_nil (List.isEmpty_iff.1 hafter))
    · cases hread
  · intro hcall
    cases hcall with
    | @intro piece name after pieces operands code hname hpadded hoperands hafter =>
      have hopening : '(' ∉ name :=
        hpadded.not_mem (by decide) (not_mem_of_plain hname.plain (by decide))
      have hclosing : ')' ∉ after := hafter.not_mem (by decide)
      have hlist := readOperands_eq_ok_iff.2 ⟨pieces, hoperands, rfl⟩
      have hnamed := named_eq_ok_iff.2 ⟨code, hname, rfl⟩
      rw [readCall, cutFirst?_append hopening]
      simp only [orReport, bind, Except.bind, cutLast?_append hclosing, Text.trim_of_blank hafter,
        hpadded.trim hname.solid, hlist, List.isEmpty_nil, if_true]
      exact hnamed

theorem Padded.append_left {before : List Char} (h : Padded piece cs) (hbefore : Blank before) :
    Padded piece (before ++ cs) := by
  cases h with
  | @intro inner after hinner hafter =>
    rw [← List.append_assoc, ← List.append_assoc]
    exact .intro (List.forall_mem_append.2 ⟨hbefore, hinner⟩) hafter

theorem Call.pad {before after : List Char} (h : Call cs i) (hbefore : Blank before)
    (hafter : Blank after) : Call (before ++ cs ++ after) i := by
  cases h with
  | @intro piece name inner pieces operands code hname hpadded hoperands hinner =>
    have hcall := Call.intro hname (hpadded.append_left hbefore) hoperands
      (List.forall_mem_append.2 ⟨hinner, hafter⟩)
    simpa using hcall

theorem Call.trim (h : Call cs i) : Call (trim cs) i := by
  cases h with
  | @intro piece name after pieces operands code hname hpadded hoperands hafter =>
    cases hpadded with
    | @intro before blanks hbefore hblanks =>
      have hend : trimEnd (blanks ++ '(' :: ([','].intercalate pieces ++ ')' :: after))
          = blanks ++ '(' :: ([','].intercalate pieces ++ [')']) := by
        have hsplit : blanks ++ '(' :: ([','].intercalate pieces ++ ')' :: after)
            = blanks ++ '(' :: ([','].intercalate pieces ++ [')']) ++ after := by simp
        rw [hsplit, Text.trimEnd_append_of_blank hafter]
        apply trimEnd_of_closing
        rw [← List.cons_append, ← List.append_assoc]
        exact List.getLast?_concat
      rw [List.append_assoc _ blanks, hname.solid.trim_append_append hbefore, hend]
      have hcall := Call.intro hname (.intro (List.forall_mem_nil _) hblanks) hoperands
        (List.forall_mem_nil _)
      simpa using hcall

/-- The blanks around a call do not count. -/
theorem call_trim_iff : Call (Text.trim cs) i ↔ Call cs i := by
  refine ⟨fun hcall => ?_, Call.trim⟩
  obtain ⟨before, after, hbefore, hafter, hcs⟩ := Text.exists_append_trim_append cs
  rw [hcs]
  exact hcall.pad hbefore hafter

/-! ### Lines -/

/-- Reads an instruction line behind its `*`, if it has one. -/
def readNumbered (starts : Bool) (cs : List Char) : Except Cause Entry := do
  let (line, call) ← orReport .noLineMark (cutFirst? ':' cs)
  let line ← readUnsigned (trim line)
  return .instruction starts line (← readCall (trim call))

theorem readInstruction_star (cs : List Char) :
    readInstruction ('*' :: cs) = readNumbered true (trimStart cs) := rfl

theorem readInstruction_of_head? (h : cs.head? ≠ some '*') :
    readInstruction cs = readNumbered false cs := by
  unfold readInstruction
  split
  rename_i hmatch
  split at hmatch
  · exact absurd rfl h
  · cases hmatch
    rfl

theorem readNumbered_eq_ok_iff {starts : Bool} {e : Entry} : readNumbered starts cs = .ok e ↔
    ∃ n i, Numbered cs n i ∧ e = .instruction starts (.ofNat n) i := by
  constructor
  · intro hread
    obtain ⟨⟨number, call⟩, hmark, hread⟩ := ok_of_bind hread
    obtain ⟨line, hline, hread⟩ := ok_of_bind hread
    obtain ⟨i, hcall, hread⟩ := ok_of_bind hread
    cases hread
    obtain ⟨n, hnumber, rfl⟩ := Numeral.unsigned?_eq_some_iff.1 (eq_ok_of_orReport.1 hline)
    refine ⟨n, i, ?_, rfl⟩
    rw [eq_of_cutFirst? (eq_ok_of_orReport.1 hmark)]
    exact .intro hnumber (padded_trim number) (call_trim_iff.1 (readCall_eq_ok_iff.1 hcall))
  · rintro ⟨n, i, hnumbered, rfl⟩
    cases hnumbered with
    | @intro piece number call _ _ hnumber hpadded hcall =>
      have hmark : ':' ∉ number :=
        hpadded.not_mem (by decide) (not_mem_of_plain hnumber.plain (by decide))
      have hline : readUnsigned (trim number) = .ok (.ofNat n) := by
        rw [hpadded.trim hnumber.solid, readUnsigned, eq_ok_of_orReport]
        exact Numeral.unsigned?_eq_some_iff.2 ⟨n, hnumber, rfl⟩
      have hread := readCall_eq_ok_iff.2 (call_trim_iff.2 hcall)
      rw [readNumbered, cutFirst?_append hmark]
      simp only [orReport, bind, Except.bind, hline, hread]
      rfl

theorem Numbered.trimStart {n : Nat} (h : Numbered cs n i) : Numbered (trimStart cs) n i := by
  cases h with
  | @intro piece number call _ _ hnumber hpadded hcall =>
    cases hpadded with
    | @intro before after hbefore hafter =>
      rw [List.append_assoc, List.append_assoc, Text.trimStart_append_of_blank hbefore,
        hnumber.solid.trimStart_append]
      have hnumbered := Numbered.intro hnumber (.intro (List.forall_mem_nil _) hafter) hcall
      simpa using hnumbered

/-- A line without a `*` does not look as if it had one. -/
theorem Numbered.head?_ne {n : Nat} (h : Numbered cs n i) : cs.head? ≠ some '*' := by
  cases h with
  | @intro piece number call _ _ hnumber hpadded hcall =>
    cases hpadded with
    | @intro before after hbefore hafter =>
      intro hstar
      cases before with
      | nil =>
        obtain ⟨c, piece', rfl⟩ := List.exists_cons_of_ne_nil hnumber.ne_nil
        cases hstar
        exact not_mem_of_plain hnumber.plain (by decide) List.mem_cons_self
      | cons c before =>
        cases hstar
        exact hbefore.not_mem (by decide) List.mem_cons_self

/-- The reader of instruction lines and their grammar agree on text that does not begin with a
blank. -/
theorem readInstruction_eq_ok_iff (hhead : ∀ c ∈ cs.head?, isBlank c = false) {e : Entry} :
    readInstruction cs = .ok e ↔
      ∃ starts n i, Line cs starts n i ∧ e = .instruction starts (.ofNat n) i := by
  constructor
  · intro hread
    by_cases hstar : cs.head? = some '*'
    · obtain ⟨rest, rfl⟩ := List.head?_eq_some_iff.1 hstar
      rw [readInstruction_star, readNumbered_eq_ok_iff] at hread
      obtain ⟨n, i, hnumbered, rfl⟩ := hread
      obtain ⟨blanks, hblanks, hrest⟩ := Text.exists_append_trimStart rest
      have hline := Line.start (.intro (List.forall_mem_nil _) hblanks) hnumbered
      rw [List.nil_append, List.append_assoc, ← hrest] at hline
      exact ⟨true, n, i, hline, rfl⟩
    · rw [readInstruction_of_head? hstar, readNumbered_eq_ok_iff] at hread
      obtain ⟨n, i, hnumbered, rfl⟩ := hread
      exact ⟨false, n, i, .within hnumbered, rfl⟩
  · rintro ⟨starts, n, i, hline, rfl⟩
    cases hline with
    | within hnumbered =>
      rw [readInstruction_of_head? hnumbered.head?_ne, readNumbered_eq_ok_iff]
      exact ⟨n, i, hnumbered, rfl⟩
    | @start mark cs _ _ hpadded hnumbered =>
      cases hpadded with
      | @intro before after hbefore hafter =>
        cases before with
        | nil =>
          rw [List.nil_append, List.append_assoc, List.singleton_append, readInstruction_star,
            Text.trimStart_append_of_blank hafter, readNumbered_eq_ok_iff]
          exact ⟨n, i, hnumbered.trimStart, rfl⟩
        | cons c before =>
          have hblank := hbefore c List.mem_cons_self
          rw [hhead c rfl] at hblank
          cases hblank

/-- A line that is neither silent nor a directive is read as an instruction. -/
theorem readLine_of_instruction {line : List Char} (hfull : meaning line ≠ [])
    (hdata : ¬ ".data".toList <+: meaning line) (hvar : ¬ ".var".toList <+: meaning line) :
    readLine line = some <$> readInstruction (meaning line) := by
  unfold readLine
  split
  · rename_i hmeaning
    exact absurd hmeaning hfull
  · rename_i rest hmeaning
    exact absurd ⟨rest, hmeaning.symm⟩ hdata
  · rename_i rest hmeaning
    exact absurd ⟨rest, hmeaning.symm⟩ hvar
  · rfl

end Listing

namespace Program

open Listing (Entry Line meaning readLine readInstruction)

variable {a line : String} {p q : Program}

/-- What the last line of a listing makes of the program before it. -/
theorem read_append_line (ha : a = "" ∨ ∃ front, a = front ++ "\n") (hread : read a = .ok p)
    (hline : '\n' ∉ line.toList) :
    read (a ++ line) = match readLine line.toList with
      | .error cause => .error { cause, line := some (1 + a.toList.count '\n') }
      | .ok entry => .ok (entry.toList.foldl add p) := by
  have hadd : ∀ e : Entry, p.followedBy (ofEntries [e]) = p.add e := fun e => by
    have hempty := add_followedBy p {} e
    rw [followedBy_empty] at hempty
    exact hempty.symm
  have hlast := read_ofList hline
  rw [String.ofList_toList] at hlast
  rw [read_append ha, hread, hlast]
  cases readLine line.toList with
  | error cause => rfl
  | ok entry =>
    cases entry with
    | none => exact congrArg Except.ok (followedBy_empty p)
    | some e => exact congrArg Except.ok (hadd e)

/-- A line that, without its comment and the blanks around it, is not empty and does not begin with
`.data` or `.var` is accepted exactly if it is an instruction line of the grammar. Then it adds its
one instruction and nothing else: with the operation and the operands in order, as words, with the
source line that the line begins with, and with the start of a statement at the instruction if there
is a `*`. -/
theorem reads_instruction_iff (ha : a = "" ∨ ∃ front, a = front ++ "\n") (hread : read a = .ok p)
    (hline : '\n' ∉ line.toList) (hfull : meaning line.toList ≠ [])
    (hdata : ¬ ".data".toList <+: meaning line.toList)
    (hvar : ¬ ".var".toList <+: meaning line.toList) :
    read (a ++ line) = .ok q ↔ ∃ starts n i, Line (meaning line.toList) starts n i ∧
      q = { p with
        code := p.code.push i
        starts := if starts then p.starts.push p.code.size else p.starts
        lines := p.lines.push (.ofNat n) } := by
  have hhead : ∀ c ∈ (meaning line.toList).head?, Text.isBlank c = false := fun c => Text.head?_trim
  have hgrammar : ∀ {e}, readInstruction (meaning line.toList) = .ok e ↔ ∃ starts n i,
      Line (meaning line.toList) starts n i ∧ e = .instruction starts (.ofNat n) i :=
    Listing.readInstruction_eq_ok_iff hhead
  rw [read_append_line ha hread hline, Listing.readLine_of_instruction hfull hdata hvar]
  constructor
  · intro hok
    cases hinstruction : readInstruction (meaning line.toList) with
    | error cause =>
      rw [hinstruction] at hok
      cases hok
    | ok e =>
      rw [hinstruction] at hok
      obtain ⟨starts, n, i, hgrammatical, rfl⟩ := hgrammar.1 hinstruction
      cases hok
      exact ⟨starts, n, i, hgrammatical, rfl⟩
  · rintro ⟨starts, n, i, hgrammatical, rfl⟩
    rw [hgrammar.2 ⟨starts, n, i, hgrammatical, rfl⟩]
    rfl

/-- A source line in hexadecimal digits, and one operand of the three that there is room for. -/
def spaced : String := " *\t0x+1f : ADD_I ( ,-+3, ) ; (:\r"

/-- An operand too many. -/
def crowded : String := "3: ADD_I(1, 2)"

theorem reads_instruction_iff_spaced :
    ∃ p q, read "2: #8()\n" = .ok p ∧ read ("2: #8()\n" ++ spaced) = .ok q ∧
      q.code = p.code.push ⟨106, [-3]⟩ ∧ q.starts = #[1] ∧ q.lines = p.lines.push 31 ∧
      (∃ starts n i, Line (meaning spaced.toList) starts n i) ∧
      ∀ starts n i, ¬ Line (meaning crowded.toList) starts n i := by
  have hwhole : "2: #8()\n" = "" ∨ ∃ front, "2: #8()\n" = front ++ "\n" := .inr ⟨"2: #8()", rfl⟩
  obtain ⟨p, q, hp, hq, hcode, hstarts, hlines⟩ : ∃ p q, read "2: #8()\n" = .ok p ∧
      read ("2: #8()\n" ++ spaced) = .ok q ∧ q.code = p.code.push ⟨106, [-3]⟩ ∧
      q.starts = #[1] ∧ q.lines = p.lines.push 31 := ⟨_, _, rfl, rfl, rfl, rfl, rfl⟩
  have hrefused : read ("2: #8()\n" ++ crowded)
      = .error { cause := .operandCount .addI 2, line := some 2 } := rfl
  have hspaced : '\n' ∉ spaced.toList := by decide
  have hcrowded : '\n' ∉ crowded.toList := by decide
  obtain ⟨starts, n, i, hline, -⟩ := (reads_instruction_iff hwhole hp hspaced
    (by decide) (by decide) (by decide)).1 hq
  refine ⟨p, q, hp, hq, hcode, hstarts, hlines, ⟨starts, n, i, hline⟩, fun starts n i hline => ?_⟩
  have haccepted := (reads_instruction_iff hwhole hp hcrowded
    (by decide) (by decide) (by decide)).2 ⟨starts, n, i, hline, rfl⟩
  rw [hrefused] at haccepted
  cases haccepted

end Program

end Backstep
