import Backstep.Proofs.AddressMap
import Backstep.Proofs.Listing.Entries
/-!
# Listings one behind the other

A listing is read line by line, and what a line says does not depend on the lines before it. So a
listing whose lines are all whole may be cut off from what follows: `Program.read_append` says that
the two parts are read for themselves, that a problem in the second part is found as many lines
further down as the first part has, and that otherwise the programs are put together by
`Program.followedBy`. From there come the first bad line of a listing and the lines that say
nothing.
-/

namespace Backstep

namespace Program

open Listing (Entry)

/-! ### One program behind another -/

/-- The program with the other one behind it, where the other one's variables stand at the addresses
of both. -/
def followedBy (p q : Program) : Program where
  data := p.data ++ q.data
  code := p.code ++ q.code
  starts := p.starts ++ q.starts.map (· + p.size)
  lines := p.lines ++ q.lines
  vars := p.vars.union q.vars

variable {p q : Program}

theorem followedBy_empty (p : Program) : p.followedBy {} = p := by
  have hvars : p.vars.union .empty = p.vars := rfl
  simp only [followedBy, hvars, Array.map_empty, Array.append_empty]

theorem add_followedBy (p q : Program) (e : Entry) :
    (p.followedBy q).add e = p.followedBy (q.add e) := by
  cases e with
  | data bytes =>
    have hdata : p.data ++ q.data ++ bytes = p.data ++ (q.data ++ bytes) := by
      apply Array.ext'
      simp
    simp only [followedBy, add, hdata, size]
  | declaration v => simp only [followedBy, add, AddressMap.union_insert, size]
  | instruction starts line i =>
    have hindex : (p.code ++ q.code).size = q.code.size + p.code.size := by
      rw [Array.size_append, Nat.add_comm]
    cases starts with
    | false => simp [followedBy, add, size]
    | true => simp [followedBy, add, size, hindex]

/-- Entries one behind the other make programs one behind the other. -/
theorem ofEntries_append (es fs : List Entry) :
    ofEntries (es ++ fs) = (ofEntries es).followedBy (ofEntries fs) := by
  have hfold : ∀ q, fs.foldl add ((ofEntries es).followedBy q)
      = (ofEntries es).followedBy (fs.foldl add q) := by
    induction fs with
    | nil => exact fun q => rfl
    | cons e fs ih =>
      intro q
      rw [List.foldl_cons, add_followedBy, ih, List.foldl_cons]
  have hall := hfold {}
  rw [followedBy_empty] at hall
  rw [ofEntries, List.foldl_append]
  exact hall

end Program

/-- The problem, so many lines further down. -/
def Problem.further (p : Problem) (lines : Nat) : Problem :=
  { p with line := p.line.map (· + lines) }

namespace Listing

/-! ### Lines one behind the other -/

theorem readLines_append (number : Nat) (as bs : List (List Char)) :
    readLines number (as ++ bs) = readLines number as >>= fun es =>
      (es ++ ·) <$> readLines (number + as.length) bs := by
  induction as generalizing number with
  | nil =>
    rw [List.nil_append, List.length_nil, Nat.add_zero]
    cases readLines number bs <;> rfl
  | cons line as ih =>
    have hlength : number + 1 + as.length = number + (line :: as).length := by
      rw [List.length_cons]
      omega
    rw [List.cons_append, readLines, readLines, ih, hlength]
    cases readLine line with
    | error cause => rfl
    | ok entry =>
      cases readLines (number + 1) as with
      | error e => rfl
      | ok es =>
        cases readLines (number + (line :: as).length) bs with
        | error e => rfl
        | ok fs => exact congrArg Except.ok (List.append_assoc _ _ _).symm

/-- Where the count of lines begins shows only in the number of a problem. -/
theorem readLines_add (number k : Nat) (lines : List (List Char)) :
    readLines (number + k) lines = (readLines number lines).mapError (·.further k) := by
  induction lines generalizing number with
  | nil => rfl
  | cons line lines ih =>
    rw [readLines, readLines, Nat.add_right_comm, ih]
    cases readLine line with
    | error cause => rfl
    | ok entry => cases readLines (number + 1) lines <;> rfl

theorem map_eq_error_iff {ε α β : Type} {x : Except ε α} {f : α → β} {e : ε} :
    f <$> x = .error e ↔ x = .error e := by
  cases x with
  | error e' => exact ⟨fun h => congrArg Except.error (Except.error.inj h),
      fun h => congrArg Except.error (Except.error.inj h)⟩
  | ok a => exact iff_of_false (fun h => by cases h) (fun h => by cases h)

/-- Lines are refused because of the first bad one. -/
theorem readLines_eq_error_iff {number : Nat} {lines : List (List Char)} {e : Problem} :
    readLines number lines = .error e ↔ ∃ before line after cause,
      lines = before ++ line :: after ∧ (∀ l ∈ before, ∃ entry, readLine l = .ok entry) ∧
      readLine line = .error cause ∧ e = { cause, line := some (number + before.length) } := by
  induction lines generalizing number with
  | nil =>
    refine iff_of_false (fun h => by cases h) ?_
    rintro ⟨before, line, after, cause, hlines, -⟩
    simp at hlines
  | cons first lines ih =>
    rw [readLines]
    cases hfirst : readLine first with
    | error cause =>
      constructor
      · intro h
        cases h
        exact ⟨[], first, lines, cause, rfl, List.forall_mem_nil _, hfirst, rfl⟩
      · rintro ⟨before, line, after, cause', hlines, hbefore, hline, rfl⟩
        cases before with
        | nil =>
          obtain ⟨rfl, rfl⟩ := List.cons.inj hlines
          cases hfirst.symm.trans hline
          rfl
        | cons l before =>
          obtain ⟨rfl, -⟩ := List.cons.inj hlines
          obtain ⟨entry, hentry⟩ := hbefore first List.mem_cons_self
          cases hfirst.symm.trans hentry
    | ok entry =>
      rw [map_eq_error_iff, ih]
      constructor
      · rintro ⟨before, line, after, cause, rfl, hbefore, hline, rfl⟩
        refine ⟨first :: before, line, after, cause, rfl, ?_, hline, ?_⟩
        · exact List.forall_mem_cons.2 ⟨⟨entry, hfirst⟩, hbefore⟩
        · simp only [List.length_cons, Nat.add_assoc, Nat.add_comm 1]
      · rintro ⟨before, line, after, cause, hlines, hbefore, hline, rfl⟩
        cases before with
        | nil =>
          obtain ⟨rfl, -⟩ := List.cons.inj hlines
          cases hfirst.symm.trans hline
        | cons l before =>
          obtain ⟨-, rfl⟩ := List.cons.inj hlines
          obtain ⟨-, hbefore⟩ := List.forall_mem_cons.1 hbefore
          refine ⟨before, line, after, cause, rfl, hbefore, hline, ?_⟩
          simp only [List.length_cons, Nat.add_assoc, Nat.add_comm 1]

/-- The line has nothing but blanks, up to its comment if it has one. -/
def Silent (line : List Char) : Prop := ∀ c ∈ line.takeWhile (· != ';'), Text.isBlank c = true

theorem Silent.readLine {line : List Char} (h : Silent line) : readLine line = .ok none := by
  have hmeaning : meaning line = [] := Text.trim_of_blank h
  simp only [Listing.readLine, hmeaning]

end Listing

namespace Program

open Listing (readLines readLine)

/-- The text is empty or its last line is whole. -/
theorem exists_lines {a : String} (ha : a = "" ∨ ∃ front, a = front ++ "\n") :
    ∃ lines : List (List Char), lines.length = a.toList.count '\n' ∧
      ∀ b : String, (a ++ b).toList.splitOn '\n' = lines ++ b.toList.splitOn '\n' := by
  rcases ha with rfl | ⟨front, rfl⟩
  · exact ⟨[], rfl, fun b => by simp⟩
  · refine ⟨front.toList.splitOn '\n', ?_, fun b => ?_⟩
    · rw [Text.length_splitOn, String.toList_append, List.count_append]
      rfl
    · have hbreak : (front ++ "\n" ++ b).toList = front.toList ++ '\n' :: b.toList := by simp
      rw [hbreak, List.splitOn_append_cons_self]

/-- The empty line behind the last one says nothing. -/
theorem readLines_concat_nil (number : Nat) (lines : List (List Char)) :
    readLines number (lines ++ [[]]) = readLines number lines := by
  rw [Listing.readLines_append]
  cases readLines number lines with
  | error e => rfl
  | ok es => exact congrArg Except.ok (List.append_nil es)

/-- Listings one behind the other are read for themselves. -/
theorem read_append {a : String} (ha : a = "" ∨ ∃ front, a = front ++ "\n") (b : String) :
    read (a ++ b) = read a >>= fun p =>
      p.followedBy <$> (read b).mapError (·.further (a.toList.count '\n')) := by
  obtain ⟨lines, hlength, hlines⟩ := exists_lines ha
  have hfirst : a.toList.splitOn '\n' = lines ++ [[]] := by
    have hempty := hlines ""
    rwa [String.append_empty] at hempty
  rw [read, hlines, read, hfirst, read, readLines_concat_nil, Listing.readLines_append, ← hlength,
    Listing.readLines_add]
  cases readLines 1 lines with
  | error e => rfl
  | ok es =>
    cases readLines 1 (b.toList.splitOn '\n') with
    | error e => rfl
    | ok fs => exact congrArg Except.ok (ofEntries_append es fs)

/-- What is read from a line that stands alone. -/
theorem read_ofList {line : List Char} (hline : '\n' ∉ line) :
    read (String.ofList line) = match readLine line with
      | .error cause => .error { cause, line := some 1 }
      | .ok entry => .ok (ofEntries entry.toList) := by
  rw [read, String.toList_ofList, List.splitOn_eq_singleton hline, readLines]
  cases readLine line with
  | error cause => rfl
  | ok entry => exact congrArg (fun es => Except.ok (ofEntries es)) (List.append_nil entry.toList)

theorem read_ofList_eq_error_iff {line : List Char} (hline : '\n' ∉ line)
    {cause : Problem.Cause} :
    read (String.ofList line) = .error { cause, line := some 1 }
      ↔ readLine line = .error cause := by
  rw [read_ofList hline]
  cases readLine line <;> simp

theorem exists_read_ofList_iff {line : List Char} (hline : '\n' ∉ line) :
    (∃ p, read (String.ofList line) = .ok p) ↔ ∃ entry, readLine line = .ok entry := by
  rw [read_ofList hline]
  cases readLine line <;> simp

/-- A listing is refused because of its first bad line, which is bad in itself. -/
theorem read_eq_error_iff {listing : String} {e : Problem} :
    read listing = .error e ↔ ∃ before line after cause,
      listing.toList.splitOn '\n' = before ++ line :: after ∧
      (∀ l ∈ before, ∃ p, read (String.ofList l) = .ok p) ∧
      read (String.ofList line) = .error { cause, line := some 1 } ∧
      e = { cause, line := some (before.length + 1) } := by
  have hbreaks : ∀ l ∈ listing.toList.splitOn '\n', '\n' ∉ l := fun l hl hmem => by
    simpa using (Text.of_mem_splitOnP hl _ hmem).1
  rw [read, Listing.map_eq_error_iff, Listing.readLines_eq_error_iff]
  refine exists_congr fun before => exists_congr fun line => exists_congr fun after =>
    exists_congr fun cause => and_congr_right fun hlines => ?_
  rw [hlines] at hbreaks
  have hbefore : ∀ l ∈ before, '\n' ∉ l := fun l hl => hbreaks l (List.mem_append_left _ hl)
  have hline : '\n' ∉ line := hbreaks line (List.mem_append_right _ List.mem_cons_self)
  rw [read_ofList_eq_error_iff hline, Nat.add_comm 1]
  refine and_congr_left fun _ => forall_congr' fun l => forall_congr' fun hl => ?_
  exact (exists_read_ofList_iff (hbefore l hl)).symm

end Program

/-- The problem after a line was put in behind so many others. -/
def Problem.movedBehind (p : Problem) (lines : Nat) : Problem :=
  { p with line := p.line.map fun n => if n ≤ lines then n else n + 1 }

namespace Listing

variable {before after : List (List Char)} {line : List Char} {e : Problem}

theorem movedBehind_of_before (h : readLines 1 before = .error e) :
    e.movedBehind before.length = e := by
  obtain ⟨before', line, after, cause, rfl, -, -, rfl⟩ := readLines_eq_error_iff.1 h
  have hline : 1 + before'.length ≤ (before' ++ line :: after).length := by
    rw [List.length_append, List.length_cons]
    omega
  simp only [Problem.movedBehind, Option.map_some, if_pos hline]

theorem movedBehind_of_after {number : Nat} (h : readLines (1 + number) after = .error e) :
    e.movedBehind number = e.further 1 := by
  obtain ⟨before', line, after, cause, rfl, -, -, rfl⟩ := readLines_eq_error_iff.1 h
  have hline : ¬ 1 + number + before'.length ≤ number := by omega
  simp only [Problem.movedBehind, Problem.further, Option.map_some, if_neg hline]

/-- A line that says nothing moves what stands behind it and does nothing else. -/
theorem readLines_insert (hsilent : Silent line) :
    readLines 1 (before ++ line :: after)
      = (readLines 1 (before ++ after)).mapError (·.movedBehind before.length) := by
  have hskip : readLines (1 + before.length) (line :: after)
      = (readLines (1 + before.length) after).mapError (·.further 1) := by
    rw [readLines, hsilent.readLine, readLines_add]
    cases readLines (1 + before.length) after <;> rfl
  rw [readLines_append, readLines_append, hskip]
  cases hbefore : readLines 1 before with
  | error e => exact congrArg Except.error (movedBehind_of_before hbefore).symm
  | ok es =>
    cases hafter : readLines (1 + before.length) after with
    | error e => exact congrArg Except.error (movedBehind_of_after hafter).symm
    | ok fs => rfl

end Listing

namespace Program

/-- Each line of a listing is read for itself. Where the first part of a listing ends with a whole
line, the parts are read on their own: a problem of the first part is a problem of the listing, a
problem of the second part is found as many lines further down, and otherwise the two programs
stand one behind the other, with the variables of the second one at addresses of both. A listing is
refused for the first of its lines that is refused alone. A line of blanks or with a comment alone
may be put in anywhere and changes nothing but the number of a line behind it. -/
theorem reads_linewise :
    (∀ a b : String, (a = "" ∨ ∃ front, a = front ++ "\n") →
      (∀ e, read a = .error e → read (a ++ b) = .error e) ∧
      (∀ p e, read a = .ok p → read b = .error e →
        read (a ++ b) = .error (e.further (a.toList.count '\n'))) ∧
      (∀ p q, read a = .ok p → read b = .ok q → read (a ++ b) = .ok (p.followedBy q) ∧
        ∀ address, (p.followedBy q).vars.find? address
          = (q.vars.find? address).or (p.vars.find? address))) ∧
    (∀ listing e, read listing = .error e ↔ ∃ before line after cause,
      listing.toList.splitOn '\n' = before ++ line :: after ∧
      (∀ l ∈ before, ∃ p, read (String.ofList l) = .ok p) ∧
      read (String.ofList line) = .error { cause, line := some 1 } ∧
      e = { cause, line := some (before.length + 1) }) ∧
    ∀ listing listing' before line after, listing.toList.splitOn '\n' = before ++ after →
      listing'.toList.splitOn '\n' = before ++ line :: after →
      (∀ c ∈ line.takeWhile (· != ';'), Text.isBlank c = true) →
      read listing' = (read listing).mapError (·.movedBehind before.length) := by
  refine ⟨fun a b ha => ⟨?_, ?_, ?_⟩, ?_, ?_⟩
  · intro e hread
    rw [read_append ha, hread]
    rfl
  · intro p e hread hrest
    rw [read_append ha, hread, hrest]
    rfl
  · intro p q hread hrest
    rw [read_append ha, hread, hrest]
    exact ⟨rfl, AddressMap.find?_union p.vars q.vars⟩
  · exact fun listing e => read_eq_error_iff
  · intro listing listing' before line after hwithout hwith hsilent
    rw [read, read, hwithout, hwith, Listing.readLines_insert hsilent]
    cases Listing.readLines 1 (before ++ after) <;> rfl

/-- A first part, which declares a variable and begins a statement. -/
def opening : String := "; start\n.var v 8 8 1.1-1.2\n* 1: #7()\n"

/-- A second part, which declares another variable at the address and begins a statement with its
second instruction. -/
def closing : String := "2: #8()\r\n.var w 8 4 2.1-2.2\n* 2: #9(-1)"

/-- The second line of it lacks its closing parenthesis. -/
def broken : String := "2: #8()\n2: #9(\n"

theorem reads_linewise_overriding :
    ∃ p q, read opening = .ok p ∧ read closing = .ok q ∧
      read (opening ++ closing) = .ok (p.followedBy q) ∧ (p.followedBy q).starts = #[0, 2] ∧
      ((p.followedBy q).vars.find? 8).map (·.name) = some "w" ∧
      read broken = .error { cause := .noClosing, line := some 2 } ∧
      read (opening ++ broken) = .error { cause := .noClosing, line := some 5 } ∧
      read "2: #8()\n ; none\n2: #9(\n" = .error { cause := .noClosing, line := some 3 } := by
  obtain ⟨hcompose, -, hinsert⟩ := reads_linewise
  have hwhole : opening = "" ∨ ∃ front, opening = front ++ "\n" :=
    .inr ⟨"; start\n.var v 8 8 1.1-1.2\n* 1: #7()", rfl⟩
  obtain ⟨p, hopening, hpstarts, hsize⟩ : ∃ p, read opening = .ok p ∧ p.starts = #[0] ∧
      p.size = 1 := ⟨_, rfl, rfl, rfl⟩
  obtain ⟨q, hclosing, hqstarts, hname⟩ : ∃ q, read closing = .ok q ∧ q.starts = #[1] ∧
      (q.vars.find? 8).map (·.name) = some "w" := ⟨_, rfl, rfl, rfl⟩
  have hbroken : read broken = .error { cause := .noClosing, line := some 2 } := rfl
  obtain ⟨happend, hfind⟩ := (hcompose opening closing hwhole).2.2 p q hopening hclosing
  have hfurther := (hcompose opening broken hwhole).2.1 p _ hopening hbroken
  have hsilent : ∀ c ∈ " ; none".toList.takeWhile (· != ';'), Text.isBlank c = true :=
    List.all_eq_true.1 rfl
  have hlonger := hinsert broken "2: #8()\n ; none\n2: #9(\n" ["2: #8()".toList] " ; none".toList
    ["2: #9(".toList, []] rfl rfl hsilent
  rw [hbroken] at hlonger
  refine ⟨p, q, hopening, hclosing, happend, ?_, ?_, hbroken, hfurther, hlonger⟩
  · simp [followedBy, hpstarts, hqstarts, hsize]
  · rw [hfind, Option.map_or, hname]
    rfl

end Program

end Backstep
