import Backstep.Proofs.Text.Numeral
/-!
# Entries that are read back

An entry that is written on a line is read from this line again. This holds of data, of variables
whose name is a single word and of instructions that have as many operands as their operation takes.
An instruction of the catalog with another number of operands is refused, since it is written with
its mnemonic and a mnemonic asks for this number.
-/

namespace Backstep

namespace Instruction

/-- An operation of the catalog has as many operands as it takes. -/
def Counted (i : Instruction) : Prop := ∀ op, i.op? = some op → i.operands.length = op.arity

end Instruction

/-- The name is a single word of a listing. -/
def Variable.Named (v : Variable) : Prop := Text.Solid v.name.toList ∧ ';' ∉ v.name.toList

namespace Listing

open Text (Solid trim)

/-! ### Texts on one line -/

/-- Neither ends the line nor begins a comment. -/
def Inline (cs : List Char) : Prop := ∀ c ∈ cs, c ≠ ';' ∧ c ≠ '\n'

theorem inline_of_any {cs : List Char} (h : cs.any (fun c => c == ';' || c == '\n') = false) :
    Inline cs := fun c hc => by simpa using List.any_eq_false.1 h c hc

theorem Inline.append {as bs : List Char} (ha : Inline as) (hb : Inline bs) : Inline (as ++ bs) :=
  fun c hc => (List.mem_append.1 hc).elim (ha c) (hb c)

theorem Inline.intercalate {mark : List Char} {pieces : List (List Char)} (hmark : Inline mark)
    (hpieces : ∀ piece ∈ pieces, Inline piece) : Inline (mark.intercalate pieces) := by
  intro c hc
  by_cases hin : c ∈ mark
  · exact hmark c hin
  · obtain ⟨piece, hpiece, hmem⟩ := (Text.mem_intercalate hin).1 hc
    exact hpieces piece hpiece c hmem

theorem inline_toString (n : Nat) : Inline (toString n).toList := fun c hc =>
  have hdigit := Numeral.isDigit_of_mem_toString hc
  ⟨Numeral.ne_of_isDigit hdigit (by decide), Numeral.ne_of_isDigit hdigit (by decide)⟩

theorem inline_hexOfByte (b : UInt8) : Inline (Numeral.hexOfByte b).toList := by
  have hdigit : ∀ n < 16, Nat.digitChar n ≠ ';' ∧ Nat.digitChar n ≠ '\n' := by decide
  intro c hc
  obtain ⟨n, hn, rfl⟩ := Numeral.mem_hexOfByte hc
  exact hdigit n hn

theorem meaning_eq_trim {cs : List Char} (h : Inline cs) : meaning cs = trim cs := by
  have hcomment : ∀ c ∈ cs, (c != ';') = true := fun c hc => bne_iff_ne.2 (h c hc).1
  rw [meaning, Text.takeWhile_eq_self hcomment]

/-! ### Data -/

theorem mapM_map_ok {α β ε : Type} {f : β → Except ε α} {g : α → β} {as : List α}
    (h : ∀ a ∈ as, f (g a) = .ok a) : (as.map g).mapM f = .ok as := by
  induction as with
  | nil => rfl
  | cons a as ih =>
    have hrest := ih fun b hb => h b (List.mem_cons_of_mem _ hb)
    rw [List.map_cons, List.mapM_cons, h a List.mem_cons_self, hrest]
    rfl

theorem toList_text_data (bytes : List UInt8) : (Entry.data bytes).text.toList
    = ['.', 'd', 'a', 't', 'a']
      ++ ' ' :: [' '].intercalate (bytes.map fun b => (Numeral.hexOfByte b).toList) := by
  have htext : (Entry.data bytes).text
      = ".data " ++ " ".intercalate (bytes.map Numeral.hexOfByte) := rfl
  rw [htext, String.toList_append, String.toList_intercalate, List.map_map]
  rfl

theorem readData_text (bytes : List UInt8) :
    readData (Text.trimEnd (' ' :: [' '].intercalate
      (bytes.map fun b => (Numeral.hexOfByte b).toList))) = .ok (.data bytes) := by
  have hsolid : ∀ w ∈ bytes.map (fun b => (Numeral.hexOfByte b).toList), Solid w := by
    intro w hw
    obtain ⟨b, -, rfl⟩ := List.mem_map.1 hw
    exact Numeral.solid_hexOfByte b
  have hread : ∀ b ∈ bytes, readByte (Numeral.hexOfByte b).toList = .ok b := fun b _ => by
    rw [readByte, Numeral.hexByte?_hexOfByte]
    rfl
  rw [readData, Text.words_trimEnd, Text.words_cons (by decide),
    Text.words_intercalate hsolid, mapM_map_ok hread]
  rfl

/-! ### Variables -/

theorem readUnsigned_toString (n : UInt64) : readUnsigned (toString n.toNat).toList = .ok n := by
  rw [readUnsigned, Numeral.unsigned?_toString n.toNat_lt, UInt64.ofNat_toNat]
  rfl

theorem toList_text_position (p : Position) : p.text.toList
    = (toString p.line.toNat).toList ++ '.' :: (toString p.column.toNat).toList := by
  rw [Position.text, String.toList_append, String.toList_append, List.append_assoc]
  rfl

theorem readPosition_text (p : Position) : readPosition p.text.toList = .ok p := by
  have hdot : '.' ∉ (toString p.line.toNat).toList := fun h =>
    Numeral.ne_of_isDigit (Numeral.isDigit_of_mem_toString h) (d := '.') (by decide) rfl
  rw [toList_text_position, readPosition, cutFirst?_append hdot]
  simp only [readUnsigned_toString]
  rfl

/-- A character of a printed position or of a pair of them. -/
theorem mem_text_position {p : Position} {c : Char} (h : c ∈ p.text.toList) :
    c.isDigit = true ∨ c = '.' := by
  rw [toList_text_position, List.mem_append, List.mem_cons] at h
  rcases h with h | h | h
  · exact .inl (Numeral.isDigit_of_mem_toString h)
  · exact .inr h
  · exact .inl (Numeral.isDigit_of_mem_toString h)

def place (v : Variable) : List Char := v.start.text.toList ++ '-' :: v.stop.text.toList

theorem mem_place {v : Variable} {c : Char} (h : c ∈ place v) :
    c.isDigit = true ∨ c = '.' ∨ c = '-' := by
  rw [place, List.mem_append, List.mem_cons] at h
  rcases h with h | h | h
  · exact (mem_text_position h).imp_right .inl
  · exact .inr (.inr h)
  · exact (mem_text_position h).imp_right .inl

theorem solid_place (v : Variable) : Solid (place v) := by
  refine ⟨fun h => ?_, fun c hc => ?_⟩
  · simp [place] at h
  · rcases mem_place hc with hdigit | rfl | rfl
    · exact Numeral.isBlank_of_isDigit hdigit
    · decide
    · decide

theorem toList_text_declaration (v : Variable) : (Entry.declaration v).text.toList
    = ['.', 'v', 'a', 'r'] ++ ' ' :: (v.name.toList ++ ' ' :: ((toString v.address.toNat).toList
      ++ ' ' :: ((toString v.size.toNat).toList ++ ' ' :: place v))) := by
  have htext : (Entry.declaration v).text = ".var " ++ v.name ++ " " ++ toString v.address.toNat
      ++ " " ++ toString v.size.toNat ++ " " ++ v.start.text ++ "-" ++ v.stop.text := rfl
  simp [htext, place]

theorem readVariable_text {v : Variable} (hname : v.Named) :
    readVariable (Text.trimEnd (' ' :: (v.name.toList ++ ' ' :: ((toString v.address.toNat).toList
      ++ ' ' :: ((toString v.size.toNat).toList ++ ' ' :: place v))))) = .ok (.declaration v) := by
  have hdash : '-' ∉ v.start.text.toList := by
    intro h
    rcases mem_text_position h with hdigit | hdot
    · cases hdigit
    · cases hdot
  have hblank : Text.isBlank ' ' = true := by decide
  rw [readVariable, Text.words_trimEnd, Text.words_cons hblank, hname.1.words_append_cons hblank,
    (Numeral.solid_toString _).words_append_cons hblank,
    (Numeral.solid_toString _).words_append_cons hblank,
    (solid_place v).words]
  simp only [place, cutFirst?_append hdash, readUnsigned_toString, readPosition_text,
    String.ofList_toList]
  rfl

end Listing

/-! ### Instructions -/

namespace Opcode

theorem ofMnemonic?_mnemonic (op : Opcode) : ofMnemonic? op.mnemonic = some op := by
  cases op <;> rfl

/-- Mnemonics are written with capital letters and `_`. -/
theorem mem_mnemonic (op : Opcode) : ∀ c ∈ op.mnemonic.toList, 65 ≤ c.toNat ∧ c.toNat ≤ 95 := by
  have hall : (op.mnemonic.toList.all fun c => 65 ≤ c.toNat && c.toNat ≤ 95) = true := by
    cases op <;> rfl
  exact fun c hc => by simpa using List.all_eq_true.1 hall c hc

theorem mnemonic_ne_empty (op : Opcode) : op.mnemonic ≠ "" := by cases op <;> decide

end Opcode

namespace Instruction

/-- The name of an operation is written with digits, capital letters, `_` and `#`. -/
theorem mem_mnemonic {i : Instruction} {c : Char} (h : c ∈ i.mnemonic.toList) :
    c.toNat = 35 ∨ 48 ≤ c.toNat ∧ c.toNat ≤ 57 ∨ 65 ≤ c.toNat ∧ c.toNat ≤ 95 := by
  unfold mnemonic at h
  split at h
  · rename_i op _
    exact .inr (.inr (op.mem_mnemonic c h))
  · rw [String.toList_append, List.mem_append] at h
    rcases h with h | h
    · rw [List.eq_of_mem_singleton h]
      exact .inl rfl
    · exact .inr (.inl (Char.isDigit_iff_toNat.1 (Numeral.isDigit_of_mem_toString h)))

theorem solid_mnemonic (i : Instruction) : Text.Solid i.mnemonic.toList := by
  refine ⟨?_, fun c hc => ?_⟩
  · unfold mnemonic
    split
    · rename_i op _
      exact fun h => op.mnemonic_ne_empty (String.toList_inj.1 h)
    · simp
  · have hrange := mem_mnemonic hc
    exact Text.isBlank_of_printable (by omega) (by omega)

theorem toList_text (i : Instruction) : i.text.toList = i.mnemonic.toList ++ '(' ::
    ([',', ' '].intercalate (i.operands.map fun w => (toString w.toInt).toList) ++ [')']) := by
  simp [text, String.toList_intercalate, List.map_map, Function.comp_def]

/-- An instruction is written with the characters of its name, a minus sign and four marks. -/
theorem mem_text {i : Instruction} {c : Char} (h : c ∈ i.text.toList) :
    c ∈ [' ', '(', ')', ',', '-'] ∨ c.toNat = 35 ∨ 48 ≤ c.toNat ∧ c.toNat ≤ 57 ∨
      65 ≤ c.toNat ∧ c.toNat ≤ 95 := by
  rw [toList_text, List.mem_append, List.mem_cons, List.mem_append, List.mem_singleton] at h
  rcases h with h | rfl | h | rfl
  · exact .inr (mem_mnemonic h)
  · exact .inl (by decide)
  · by_cases hmark : c ∈ [',', ' ']
    · exact .inl ((show [',', ' '] ⊆ [' ', '(', ')', ',', '-'] by decide) hmark)
    · obtain ⟨piece, hpiece, hmem⟩ := (Text.mem_intercalate hmark).1 h
      obtain ⟨w, -, rfl⟩ := List.mem_map.1 hpiece
      rcases Numeral.mem_toString_int hmem with hdigit | rfl
      · exact .inr (.inr (.inl (Char.isDigit_iff_toNat.1 hdigit)))
      · exact .inl (by decide)
  · exact .inl (by decide)

/-- A character that no instruction is written with. -/
theorem not_mem_text (i : Instruction) {c : Char} (hmark : c ∉ [' ', '(', ')', ',', '-'])
    (hcode : c.toNat < 35 ∨ 35 < c.toNat ∧ c.toNat < 48 ∨ 57 < c.toNat ∧ c.toNat < 65) :
    c ∉ i.text.toList := fun h => by
  rcases mem_text h with hin | hrange
  · exact hmark hin
  · omega

theorem getLast?_text (i : Instruction) : i.text.toList.getLast? = some ')' := by
  rw [toList_text, ← List.cons_append, ← List.append_assoc]
  exact List.getLast?_concat

end Instruction

namespace Listing

open Text (Solid trim)

theorem readOperand_toString (w : Word) : readOperand (toString w.toInt).toList = .ok w := by
  rw [readOperand, Numeral.operand?_toString]
  rfl

theorem readOperands_intercalate (operands : List Word) :
    readOperands ([',', ' '].intercalate (operands.map fun w => (toString w.toInt).toList))
      = .ok operands := by
  have hpieces : ∀ piece ∈ operands.map (fun w => (toString w.toInt).toList),
      Solid piece ∧ ',' ∉ piece := by
    intro piece hpiece
    obtain ⟨w, -, rfl⟩ := List.mem_map.1 hpiece
    refine ⟨Numeral.solid_toString_int _, fun h => ?_⟩
    rcases Numeral.mem_toString_int h with hdigit | hminus
    · cases hdigit
    · cases hminus
  rw [readOperands, Text.pieces_intercalate hpieces, mapM_map_ok fun w _ => readOperand_toString w]

/-- A printed call is taken apart into the name and the operands it was printed from. -/
theorem readCall_text (i : Instruction) :
    readCall i.text.toList = named i.mnemonic.toList i.operands := by
  have hopening : '(' ∉ i.mnemonic.toList := fun h => by
    have hrange := Instruction.mem_mnemonic h
    have hcode : '('.toNat = 40 := rfl
    omega
  rw [i.toList_text, readCall, cutFirst?_append hopening]
  simp only [orReport, bind, Except.bind]
  rw [cutLast?_append List.not_mem_nil]
  simp only [i.solid_mnemonic.trim, readOperands_intercalate]
  rfl

theorem named_of_op? {i : Instruction} {op : Opcode} (hop : i.op? = some op) :
    named i.mnemonic.toList i.operands
      = orReport (.operandCount op i.operands.length) (Instruction.of? op i.operands) := by
  have hmnemonic : i.mnemonic = op.mnemonic := by rw [Instruction.mnemonic, hop]
  unfold named
  split
  · rename_i hlist
    have hhash : '#' ∈ op.mnemonic.toList := by
      rw [← hmnemonic, hlist]
      exact List.mem_cons_self
    exact absurd (op.mem_mnemonic _ hhash).1 (by decide)
  · rw [String.ofList_toList, hmnemonic, Opcode.ofMnemonic?_mnemonic]
    rfl

theorem named_of_counted {i : Instruction} (hcounted : i.Counted) :
    named i.mnemonic.toList i.operands = .ok i := by
  cases hop : i.op? with
  | none =>
    have hmnemonic : i.mnemonic.toList = '#' :: (toString i.code.toNat).toList := by
      rw [Instruction.mnemonic, hop, String.toList_append]
      rfl
    rw [hmnemonic, named, Numeral.byte?_toString]
    rfl
  | some op =>
    rw [named_of_op? hop, Instruction.of?, if_pos (hcounted op hop),
      ← Opcode.ofCode?_eq_some_iff.1 hop]
    rfl

theorem named_of_miscounted {i : Instruction} {op : Opcode} (hop : i.op? = some op)
    (hne : i.operands.length ≠ op.arity) :
    named i.mnemonic.toList i.operands = .error (.operandCount op i.operands.length) := by
  rw [named_of_op? hop, Instruction.of?, if_neg hne]
  rfl

/-- What stands on an instruction line behind its mark. -/
def body (line : LineNumber) (i : Instruction) : List Char :=
  (toString line.toNat).toList ++ ':' :: ' ' :: i.text.toList

theorem toList_text_instruction (starts : Bool) (line : LineNumber) (i : Instruction) :
    (Entry.instruction starts line i).text.toList
      = (if starts then '*' else ' ') :: ' ' :: body line i := by
  have htext : (Entry.instruction starts line i).text
      = (if starts then "* " else "  ") ++ toString line.toNat ++ ": " ++ i.text := rfl
  cases starts <;> simp [htext, body]

theorem exists_body (line : LineNumber) (i : Instruction) :
    ∃ c cs, body line i = c :: cs ∧ c.isDigit = true := by
  obtain ⟨c, cs, hdigits⟩ := List.exists_cons_of_ne_nil (Numeral.toList_toString_ne_nil line.toNat)
  refine ⟨c, cs ++ ':' :: ' ' :: i.text.toList, ?_, ?_⟩
  · rw [body, hdigits, List.cons_append]
  · exact Numeral.isDigit_of_mem_toString (hdigits ▸ List.mem_cons_self)

theorem trimEnd_of_closing {cs : List Char} (h : cs.getLast? = some ')') : Text.trimEnd cs = cs :=
  Text.trimEnd_eq_self fun c hc => by
    rw [h] at hc
    cases hc
    decide

theorem trim_text (i : Instruction) : trim i.text.toList = i.text.toList := by
  have hlast : ('(' :: ([',', ' '].intercalate (i.operands.map fun w => (toString w.toInt).toList)
      ++ [')'])).getLast? = some ')' := by simp [List.getLast?_cons]
  rw [i.toList_text, i.solid_mnemonic.trim_append, trimEnd_of_closing hlast]

theorem trim_body (line : LineNumber) (i : Instruction) : trim (body line i) = body line i := by
  have hlast : (':' :: ' ' :: i.text.toList).getLast? = some ')' := by
    simp [List.getLast?_cons, i.getLast?_text]
  rw [body, (Numeral.solid_toString _).trim_append, trimEnd_of_closing hlast]

theorem inline_text (i : Instruction) : Inline i.text.toList := by
  intro c hc
  constructor
  · rintro rfl
    exact i.not_mem_text (by decide) (by decide) hc
  · rintro rfl
    exact i.not_mem_text (by decide) (by decide) hc

theorem inline_body (line : LineNumber) (i : Instruction) : Inline (body line i) := by
  have hmark : Inline [':', ' '] := inline_of_any rfl
  exact (inline_toString _).append (hmark.append (inline_text i))

/-! ### Lines -/

theorem readInstruction_body (starts : Bool) (line : LineNumber) (i : Instruction) :
    readInstruction (if starts then '*' :: ' ' :: body line i else body line i)
      = Entry.instruction starts line <$> named i.mnemonic.toList i.operands := by
  obtain ⟨c, cs, hbody, hdigit⟩ := exists_body line i
  have hcolon : ':' ∉ (toString line.toNat).toList := fun h => by
    cases Numeral.isDigit_of_mem_toString h
  have hcut : cutFirst? ':' (body line i)
      = some ((toString line.toNat).toList, ' ' :: i.text.toList) := cutFirst?_append hcolon _
  have hline : readUnsigned (trim (toString line.toNat).toList) = .ok line := by
    rw [(Numeral.solid_toString _).trim, readUnsigned_toString]
  have hcall : readCall (trim (' ' :: i.text.toList)) = named i.mnemonic.toList i.operands := by
    rw [Text.trim_cons (by decide), trim_text, readCall_text]
  cases starts with
  | true =>
    have hstart : Text.trimStart (' ' :: body line i) = body line i := by
      rw [Text.trimStart_cons (by decide), hbody]
      exact Text.trimStart_eq_self fun d hd => by
        cases hd
        exact Numeral.isBlank_of_isDigit hdigit
    simp only [if_true, readInstruction, hstart, hcut, orReport, bind, Except.bind, hline, hcall]
    cases named i.mnemonic.toList i.operands <;> rfl
  | false =>
    -- The other branch of the reader, since a digit is no `*`.
    have hstar : ∀ rest, body line i = '*' :: rest → False := fun rest h => by
      rw [hbody] at h
      cases h
      cases hdigit
    simp only [Bool.false_eq_true, if_false, readInstruction, hcut, orReport, bind, Except.bind,
      hline, hcall]
    cases named i.mnemonic.toList i.operands <;> rfl

theorem inline_text_instruction (starts : Bool) (line : LineNumber) (i : Instruction) :
    Inline (Entry.instruction starts line i).text.toList := by
  have hspace : Inline [' '] := inline_of_any rfl
  have hmark : Inline [if starts then '*' else ' '] := by
    cases starts <;> exact inline_of_any rfl
  rw [toList_text_instruction]
  exact hmark.append (hspace.append (inline_body line i))

theorem meaning_text_instruction (starts : Bool) (line : LineNumber) (i : Instruction) :
    meaning (Entry.instruction starts line i).text.toList
      = if starts then '*' :: ' ' :: body line i else body line i := by
  rw [meaning_eq_trim (inline_text_instruction starts line i), toList_text_instruction]
  cases starts with
  | true =>
    have hstar : Solid ['*'] := Text.solid_of_any (List.cons_ne_nil _ _) rfl
    have hlast : (' ' :: body line i).getLast? = some ')' := by
      simp [body, List.getLast?_cons, List.getLast?_append, i.getLast?_text]
    have htrim := hstar.trim_append (' ' :: body line i)
    rw [trimEnd_of_closing hlast] at htrim
    rw [if_pos rfl, if_pos rfl]
    exact htrim
  | false =>
    rw [if_neg Bool.false_ne_true, if_neg Bool.false_ne_true, Text.trim_cons (by decide),
      Text.trim_cons (by decide), trim_body]

/-- An instruction line asks what its call asks. -/
theorem readLine_text_instruction (starts : Bool) (line : LineNumber) (i : Instruction) :
    readLine (Entry.instruction starts line i).text.toList
      = (fun i => some (.instruction starts line i)) <$> named i.mnemonic.toList i.operands := by
  have hread := readInstruction_body starts line i
  have hmeaning := meaning_text_instruction starts line i
  obtain ⟨c, cs, hbody, hdigit⟩ := exists_body line i
  have hline : ∃ d ds, meaning (Entry.instruction starts line i).text.toList = d :: ds
      ∧ d ≠ '.' := by
    cases starts with
    | true => exact ⟨'*', ' ' :: body line i, hmeaning, by decide⟩
    | false => exact ⟨c, cs, hmeaning.trans hbody, Numeral.ne_of_isDigit hdigit (by decide)⟩
  rw [← hmeaning] at hread
  obtain ⟨d, ds, hcons, hne⟩ := hline
  unfold readLine
  split
  · rename_i hnil
    rw [hcons] at hnil
    cases hnil
  · rename_i hdata
    rw [hcons] at hdata
    exact absurd (List.cons.inj hdata).1 hne
  · rename_i hvar
    rw [hcons] at hvar
    exact absurd (List.cons.inj hvar).1 hne
  · rw [hread]
    cases named i.mnemonic.toList i.operands <;> rfl

/-- What an entry needs in order to be read back from its line. -/
def Entry.Readable : Entry → Prop
  | .data _ => True
  | .declaration v => v.Named
  | .instruction _ _ i => i.Counted

theorem inline_text_data (bytes : List UInt8) : Inline (Entry.data bytes).text.toList := by
  have hpieces : ∀ piece ∈ bytes.map (fun b => (Numeral.hexOfByte b).toList), Inline piece := by
    intro piece hpiece
    obtain ⟨b, -, rfl⟩ := List.mem_map.1 hpiece
    exact inline_hexOfByte b
  have hmark : Inline ['.', 'd', 'a', 't', 'a', ' '] := inline_of_any rfl
  have hspace : Inline [' '] := inline_of_any rfl
  rw [toList_text_data]
  exact hmark.append (hspace.intercalate hpieces)

theorem inline_text_declaration {v : Variable} (hname : v.Named) :
    Inline (Entry.declaration v).text.toList := by
  have hmark : Inline ['.', 'v', 'a', 'r', ' '] := inline_of_any rfl
  have hspace : Inline [' '] := inline_of_any rfl
  have hword : Inline v.name.toList := fun c hc =>
    ⟨fun h => hname.2 (h ▸ hc), fun h => by
      have hblank := hname.1.2 c hc
      rw [h] at hblank
      cases hblank⟩
  have hplace : Inline (place v) := fun c hc => by
    rcases mem_place hc with hdigit | rfl | rfl
    · exact ⟨Numeral.ne_of_isDigit hdigit (by decide), Numeral.ne_of_isDigit hdigit (by decide)⟩
    · decide
    · decide
  rw [toList_text_declaration]
  exact hmark.append (hword.append (hspace.append ((inline_toString _).append
    (hspace.append ((inline_toString _).append (hspace.append hplace))))))

theorem readLine_text {e : Entry} (h : e.Readable) : readLine e.text.toList = .ok (some e) := by
  cases e with
  | data bytes =>
    have hmark : Solid ['.', 'd', 'a', 't', 'a'] := Text.solid_of_any (List.cons_ne_nil _ _) rfl
    have hmeaning := meaning_eq_trim (inline_text_data bytes)
    rw [toList_text_data, hmark.trim_append] at hmeaning
    rw [readLine, toList_text_data, hmeaning]
    exact congrArg (some <$> ·) (readData_text bytes)
  | declaration v =>
    have hmark : Solid ['.', 'v', 'a', 'r'] := Text.solid_of_any (List.cons_ne_nil _ _) rfl
    have hmeaning := meaning_eq_trim (inline_text_declaration h)
    rw [toList_text_declaration, hmark.trim_append] at hmeaning
    rw [readLine, toList_text_declaration, hmeaning]
    exact congrArg (some <$> ·) (readVariable_text h)
  | instruction starts line i =>
    rw [readLine_text_instruction, named_of_counted h]
    rfl

end Listing

end Backstep
