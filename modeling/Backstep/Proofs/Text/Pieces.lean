import Backstep.Listing.Reader
/-!
# Pieces of a text

What the reader makes of a text that was put together from pieces: it is cut at a mark that stands
in no piece before it, and white space around a piece does not count. Nothing about listings is said
here, only about words, blanks and marks.
-/

namespace Backstep

namespace Text

variable {c : Char} {cs w : List Char}

/-- A text that is read as a single word. -/
def Solid (cs : List Char) : Prop := cs ≠ [] ∧ ∀ c ∈ cs, isBlank c = false

/-- No printed character of ASCII is blank. -/
theorem isBlank_of_printable (hlow : 0x20 < c.toNat) (hhigh : c.toNat < 0x7F) :
    isBlank c = false := by
  have hval : c.val.toNat = c.toNat := rfl
  simp only [isBlank, Bool.or_eq_false_iff, List.mem_cons, decide_eq_false_iff_not,
    Bool.and_eq_false_imp, decide_eq_true_eq, beq_eq_false_iff_ne, ne_eq, ← UInt32.toNat_inj,
    UInt32.le_iff_toNat_le, List.not_mem_nil, or_false, hval, UInt32.toNat_ofNat]
  omega

theorem solid_of_any (hfull : cs ≠ []) (h : cs.any isBlank = false) : Solid cs :=
  ⟨hfull, fun c hc => by simpa using List.any_eq_false.1 h c hc⟩

theorem Solid.filter_cons (h : Solid w) (ws : List (List Char)) :
    (w :: ws).filter (!·.isEmpty) = w :: ws.filter (!·.isEmpty) :=
  List.filter_cons_of_pos (by simpa using h.1)

theorem takeWhile_eq_self {p : Char → Bool} (h : ∀ c ∈ cs, p c = true) : cs.takeWhile p = cs := by
  have happend : (cs ++ []).takeWhile p = cs ++ [].takeWhile p := List.takeWhile_append_of_pos h
  rwa [List.append_nil, List.takeWhile_nil, List.append_nil] at happend

/-! ### Words -/

/-- Words are split at a blank. -/
theorem words_append_cons (hc : isBlank c = true) (xs ys : List Char) :
    words (xs ++ c :: ys) = words xs ++ words ys := by
  rw [words, List.splitOnP_append_cons xs ys hc, List.filter_append, words, words]

theorem words_cons (hc : isBlank c = true) (cs : List Char) : words (c :: cs) = words cs :=
  words_append_cons hc [] cs

theorem Solid.words (h : Solid cs) : words cs = [cs] := by
  rw [Text.words, List.splitOnP_eq_singleton h.2, h.filter_cons]
  rfl

theorem Solid.words_append_cons (h : Solid w) (hc : isBlank c = true) (cs : List Char) :
    Text.words (w ++ c :: cs) = w :: Text.words cs := by
  rw [Text.words_append_cons hc, h.words]
  rfl

theorem words_intercalate {ws : List (List Char)} (h : ∀ w ∈ ws, Solid w) :
    words ([' '].intercalate ws) = ws := by
  induction ws with
  | nil => rfl
  | cons w ws ih =>
    have hw := h w List.mem_cons_self
    have hrest := ih fun v hv => h v (List.mem_cons_of_mem _ hv)
    cases ws with
    | nil => rw [List.intercalate_singleton, hw.words]
    | cons v vs =>
      rw [List.intercalate_cons_cons, List.append_assoc, List.singleton_append,
        hw.words_append_cons (by decide), hrest]

theorem of_mem_splitOnP {α : Type} {p : α → Bool} {xs piece : List α}
    (h : piece ∈ xs.splitOnP p) : ∀ x ∈ piece, p x = false ∧ x ∈ xs := by
  induction xs generalizing piece with
  | nil =>
    rw [List.splitOnP_nil, List.mem_singleton] at h
    exact fun x hx => absurd (h ▸ hx) List.not_mem_nil
  | cons y ys ih =>
    have hlater : ∀ {piece}, piece ∈ ys.splitOnP p → ∀ x ∈ piece, p x = false ∧ x ∈ y :: ys :=
      fun h x hx => ⟨(ih h x hx).1, List.mem_cons_of_mem _ (ih h x hx).2⟩
    rw [List.splitOnP_cons_eq_if_modifyHead] at h
    split at h
    · rcases List.mem_cons.1 h with rfl | h
      · exact fun x hx => absurd hx List.not_mem_nil
      · exact hlater h
    · rename_i hy
      obtain ⟨first, rest, hsplit⟩ := List.exists_cons_of_ne_nil (List.splitOnP_ne_nil p ys)
      rw [hsplit, List.modifyHead_cons] at h
      rcases List.mem_cons.1 h with rfl | h
      · intro x hx
        rcases List.mem_cons.1 hx with rfl | hx
        · exact ⟨by simpa using hy, List.mem_cons_self⟩
        · exact hlater (hsplit ▸ List.mem_cons_self) x hx
      · exact hlater (hsplit ▸ List.mem_cons_of_mem _ h)

theorem solid_of_mem_words (h : w ∈ words cs) : Solid w := by
  obtain ⟨hsplit, hfull⟩ := List.mem_filter.1 h
  exact ⟨by simpa using hfull, fun c hc => (of_mem_splitOnP hsplit c hc).1⟩

theorem subset_of_mem_words (h : w ∈ words cs) : ∀ c ∈ w, c ∈ cs :=
  fun c hc => (of_mem_splitOnP (List.mem_filter.1 h).1 c hc).2

/-! ### Blanks at the ends -/

theorem trimStart_eq_self (h : ∀ c ∈ cs.head?, isBlank c = false) : trimStart cs = cs := by
  cases cs with
  | nil => rfl
  | cons c cs => exact List.dropWhile_cons_of_neg (by simpa using h c rfl)

theorem trimStart_cons (hc : isBlank c = true) (cs : List Char) :
    trimStart (c :: cs) = trimStart cs := List.dropWhile_cons_of_pos hc

theorem trimEnd_eq_self (h : ∀ c ∈ cs.getLast?, isBlank c = false) : trimEnd cs = cs := by
  rw [← List.head?_reverse] at h
  rw [trimEnd, trimStart_eq_self h, List.reverse_reverse]

theorem trim_cons (hc : isBlank c = true) (cs : List Char) : trim (c :: cs) = trim cs := by
  rw [trim, trimStart_cons hc, trim]

theorem words_of_blank (h : ∀ c ∈ cs, isBlank c = true) : words cs = [] := by
  induction cs with
  | nil => rfl
  | cons c cs ih =>
    rw [words_cons (h c List.mem_cons_self)]
    exact ih fun d hd => h d (List.mem_cons_of_mem _ hd)

theorem trimStart_of_blank (h : ∀ c ∈ cs, isBlank c = true) : trimStart cs = [] := by
  induction cs with
  | nil => rfl
  | cons c cs ih =>
    rw [trimStart_cons (h c List.mem_cons_self)]
    exact ih fun d hd => h d (List.mem_cons_of_mem _ hd)

theorem trim_of_blank (h : ∀ c ∈ cs, isBlank c = true) : trim cs = [] := by
  rw [trim, trimStart_of_blank h]
  rfl

theorem exists_append_trimStart (cs : List Char) :
    ∃ blanks, (∀ c ∈ blanks, isBlank c = true) ∧ cs = blanks ++ trimStart cs :=
  ⟨cs.takeWhile isBlank, fun c hc => List.all_eq_true.1 List.all_takeWhile c hc,
    List.takeWhile_append_dropWhile.symm⟩

theorem exists_trimEnd_append (cs : List Char) :
    ∃ blanks, (∀ c ∈ blanks, isBlank c = true) ∧ cs = trimEnd cs ++ blanks := by
  refine ⟨(cs.reverse.takeWhile isBlank).reverse, fun c hc => ?_, ?_⟩
  · exact List.all_eq_true.1 List.all_takeWhile c (List.mem_reverse.1 hc)
  · rw [trimEnd, trimStart, ← List.reverse_append, List.takeWhile_append_dropWhile,
      List.reverse_reverse]

/-- Only blanks are cut off. -/
theorem exists_append_trim_append (cs : List Char) :
    ∃ before after, (∀ c ∈ before, isBlank c = true) ∧ (∀ c ∈ after, isBlank c = true) ∧
      cs = before ++ trim cs ++ after := by
  obtain ⟨before, hbefore, hstart⟩ := exists_append_trimStart cs
  obtain ⟨after, hafter, hend⟩ := exists_trimEnd_append (trimStart cs)
  refine ⟨before, after, hbefore, hafter, ?_⟩
  rw [List.append_assoc, trim, ← hend]
  exact hstart

theorem blank_of_trim_eq_nil (h : trim cs = []) : ∀ c ∈ cs, isBlank c = true := by
  obtain ⟨before, after, hbefore, hafter, hcs⟩ := exists_append_trim_append cs
  rw [h, List.append_nil] at hcs
  rw [hcs]
  exact List.forall_mem_append.2 ⟨hbefore, hafter⟩

/-- What has been trimmed does not begin with a blank. -/
theorem head?_trim (hc : c ∈ (trim cs).head?) : isBlank c = false := by
  obtain ⟨blanks, hblanks, hend⟩ := exists_trimEnd_append (trimStart cs)
  have hstart : c ∈ (trimStart cs).head? := by
    rw [hend, List.head?_append, show (trimEnd (trimStart cs)).head? = some c from hc]
    rfl
  have hkept := List.head?_dropWhile_not isBlank cs
  rw [show (cs.dropWhile isBlank).head? = some c from hstart] at hkept
  simpa using hkept

theorem trimStart_append_of_blank {blanks : List Char} (h : ∀ c ∈ blanks, isBlank c = true)
    (cs : List Char) : trimStart (blanks ++ cs) = trimStart cs :=
  List.dropWhile_append_of_pos h

theorem trimEnd_of_blank (h : ∀ c ∈ cs, isBlank c = true) : trimEnd cs = [] := by
  rw [trimEnd, trimStart_of_blank fun c hc => h c (List.mem_reverse.1 hc), List.reverse_nil]

theorem words_trimEnd (cs : List Char) : words (trimEnd cs) = words cs := by
  obtain ⟨blanks, hblanks, hcs⟩ := exists_trimEnd_append cs
  cases blanks with
  | nil =>
    rw [List.append_nil] at hcs
    rw [← hcs]
  | cons c blanks =>
    have hnone := words_of_blank fun d hd => hblanks d (List.mem_cons_of_mem _ hd)
    have hwords := words_append_cons (hblanks c List.mem_cons_self) (trimEnd cs) blanks
    rw [← hcs, hnone, List.append_nil] at hwords
    exact hwords.symm

theorem trimEnd_append_of_blank {blanks : List Char} (h : ∀ c ∈ blanks, isBlank c = true)
    (cs : List Char) : trimEnd (cs ++ blanks) = trimEnd cs := by
  rw [trimEnd, List.reverse_append,
    trimStart_append_of_blank fun c hc => h c (List.mem_reverse.1 hc), trimEnd]

theorem Solid.trimStart_append (h : Solid w) (cs : List Char) : trimStart (w ++ cs) = w ++ cs :=
  trimStart_eq_self fun c hc => by
    rw [List.head?_append, Option.mem_def, Option.or_eq_some_iff] at hc
    rcases hc with hfirst | ⟨hnone, -⟩
    · exact h.2 c (List.mem_of_mem_head? hfirst)
    · exact absurd (List.head?_eq_none_iff.1 hnone) h.1

/-- What stands behind a word at the start of a text loses its blanks at the end. -/
theorem Solid.trim_append (h : Solid w) (cs : List Char) : trim (w ++ cs) = w ++ trimEnd cs := by
  have hlast : trimStart w.reverse = w.reverse := trimStart_eq_self fun c hc =>
    h.2 c (List.mem_reverse.1 (List.mem_of_mem_head? hc))
  rw [Text.trim, h.trimStart_append, trimEnd, List.reverse_append, trimStart,
    List.dropWhile_append, trimEnd]
  split
  · rename_i hnil
    have hblank : trimStart cs.reverse = [] := List.isEmpty_iff.1 hnil
    have hkept : w.reverse.dropWhile isBlank = w.reverse := hlast
    rw [hblank, hkept, List.reverse_reverse, List.reverse_nil, List.append_nil]
  · rw [List.reverse_append, List.reverse_reverse]
    rfl

/-- A word is found behind blanks. -/
theorem Solid.trim_append_append {before : List Char} (h : Solid w)
    (hbefore : ∀ c ∈ before, isBlank c = true) (cs : List Char) :
    trim (before ++ w ++ cs) = w ++ trimEnd cs := by
  rw [List.append_assoc, Text.trim, trimStart_append_of_blank hbefore, ← Text.trim, h.trim_append]

theorem Solid.trim (h : Solid cs) : trim cs = cs := by
  have happend := h.trim_append []
  rwa [List.append_nil, show trimEnd [] = [] from rfl, List.append_nil] at happend

theorem mem_of_mem_trim (h : c ∈ trim cs) : c ∈ cs := by
  have hstart : ∀ {cs : List Char}, c ∈ trimStart cs → c ∈ cs :=
    fun h => (List.dropWhile_sublist _).subset h
  rw [trim, trimEnd, List.mem_reverse] at h
  exact hstart (List.mem_reverse.1 (hstart h))

/-! ### Marks -/

theorem length_splitOn (mark : Char) (cs : List Char) :
    (cs.splitOn mark).length = cs.count mark + 1 := by
  induction cs with
  | nil => rfl
  | cons c cs ih =>
    rw [List.splitOn_cons_eq_if_modifyHead, List.count_cons]
    split
    · rw [List.length_cons, ih]
    · rw [List.length_modifyHead, ih, Nat.add_zero]

/-- What is not between the pieces is in one of them. -/
theorem mem_intercalate {mark : List Char} {pieces : List (List Char)} (hc : c ∉ mark) :
    c ∈ mark.intercalate pieces ↔ ∃ piece ∈ pieces, c ∈ piece := by
  induction pieces with
  | nil => simp
  | cons piece pieces ih =>
    cases pieces with
    | nil => simp
    | cons q qs =>
      rw [List.intercalate_cons_cons, List.mem_append, List.mem_append, or_iff_left hc, ih]
      simp

theorem toList_join_lines {α : Type} (text : α → String) (as : List α) :
    (String.join (as.map fun a => text a ++ "\n")).toList
      = (as.map fun a => (text a).toList).flatMap (· ++ ['\n']) := by
  rw [String.toList_join, List.flatMap_map, List.flatMap_map]
  simp only [String.toList_append]
  rfl

theorem splitOn_lines_append {lines : List (List Char)} (h : ∀ line ∈ lines, '\n' ∉ line)
    (rest : List Char) :
    (lines.flatMap (· ++ ['\n']) ++ rest).splitOn '\n' = lines ++ rest.splitOn '\n' := by
  induction lines with
  | nil => rfl
  | cons line lines ih =>
    have hrest := ih fun l hl => h l (List.mem_cons_of_mem _ hl)
    rw [List.flatMap_cons, List.append_assoc, List.append_assoc, List.singleton_append,
      List.splitOn_append_cons_self_of_not_mem (h line List.mem_cons_self), hrest]
    rfl

theorem splitOn_lines {lines : List (List Char)} (h : ∀ line ∈ lines, '\n' ∉ line) :
    (lines.flatMap (· ++ ['\n'])).splitOn '\n' = lines ++ [[]] := by
  have hsplit := splitOn_lines_append h []
  rwa [List.append_nil] at hsplit

theorem map_trim_splitOn_cons {mark : Char} (hc : isBlank c = true) (hne : c ≠ mark)
    (cs : List Char) : ((c :: cs).splitOn mark).map trim = (cs.splitOn mark).map trim := by
  obtain ⟨first, rest, hsplit⟩ := List.exists_cons_of_ne_nil (List.splitOn_ne_nil mark cs)
  rw [List.splitOn_cons_eq_if_modifyHead, if_neg (by simpa using hne), hsplit,
    List.modifyHead_cons, List.map_cons, List.map_cons, trim_cons hc]

/-- Pieces between commas are read back without the blanks behind the commas. -/
theorem pieces_intercalate {pieces : List (List Char)} (h : ∀ w ∈ pieces, Solid w ∧ ',' ∉ w) :
    ((([',', ' '].intercalate pieces).splitOn ',').map trim).filter (!·.isEmpty) = pieces := by
  induction pieces with
  | nil => rfl
  | cons w pieces ih =>
    obtain ⟨hsolid, hcomma⟩ := h w List.mem_cons_self
    have hrest := ih fun v hv => h v (List.mem_cons_of_mem _ hv)
    cases pieces with
    | nil =>
      rw [List.intercalate_singleton, List.splitOn_eq_singleton hcomma, List.map_singleton,
        hsolid.trim, hsolid.filter_cons]
      rfl
    | cons v vs =>
      rw [List.intercalate_cons_cons, List.append_assoc]
      simp only [List.cons_append, List.nil_append]
      rw [List.splitOn_append_cons_self_of_not_mem hcomma, List.map_cons,
        map_trim_splitOn_cons (by decide) (by decide), hsolid.trim, hsolid.filter_cons, hrest]

end Text

namespace Listing

theorem cutFirst?_append {c : Char} {xs : List Char} (h : c ∉ xs) (ys : List Char) :
    cutFirst? c (xs ++ c :: ys) = some (xs, ys) := by
  have hpass : ∀ x ∈ xs, (x != c) = true := fun x hx => bne_iff_ne.2 fun heq => h (heq ▸ hx)
  simp only [cutFirst?, List.dropWhile_append_of_pos hpass, List.takeWhile_append_of_pos hpass,
    List.dropWhile_cons, List.takeWhile_cons, bne_self_eq_false, Bool.false_eq_true, if_false,
    List.append_nil]

theorem cutLast?_append {c : Char} {ys : List Char} (h : c ∉ ys) (xs : List Char) :
    cutLast? c (xs ++ c :: ys) = some (xs, ys) := by
  have hreverse : (xs ++ c :: ys).reverse = ys.reverse ++ c :: xs.reverse := by simp
  rw [cutLast?, hreverse, cutFirst?_append (by rwa [List.mem_reverse])]
  simp only [Option.map_some, List.reverse_reverse]

/-- What was cut off in front is what stands before the first such character. -/
theorem eq_of_cutFirst? {c : Char} {cs xs ys : List Char} (h : cutFirst? c cs = some (xs, ys)) :
    cs = xs ++ c :: ys := by
  unfold cutFirst? at h
  split at h
  · cases h
  · rename_i d after hafter
    cases h
    have hmark : (d != c) = false := by
      have hkept := List.head?_dropWhile_not (· != c) cs
      rw [hafter] at hkept
      simpa using hkept
    obtain rfl : d = c := by simpa using hmark
    rw [← hafter, List.takeWhile_append_dropWhile]

theorem eq_of_cutLast? {c : Char} {cs xs ys : List Char} (h : cutLast? c cs = some (xs, ys)) :
    cs = xs ++ c :: ys := by
  obtain ⟨⟨after, before⟩, hcut, hpair⟩ := Option.map_eq_some_iff.1 h
  cases hpair
  have hreverse := congrArg List.reverse (eq_of_cutFirst? hcut)
  rw [List.reverse_reverse] at hreverse
  rw [hreverse]
  simp

end Listing

end Backstep
