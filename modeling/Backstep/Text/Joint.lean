import Backstep.Text.Emoji
import Backstep.Text.Letter
/-!
# Joined characters

What a text takes on a terminal is less than its characters take one by one, where neighbours are
shown as one: letters of several scripts, the two halves of a flag, an emoji with its modifier, and
emoji behind a joiner. A variation selector makes the character before it an emoji or a text. So a
text is measured from its end, and each character is told what it meets on its right.
-/

namespace Backstep.Text

/-- What a character meets on its right, as far as it can be joined to it. -/
inductive Joint
  /-- Nothing that a character can be joined to. -/
  | free
  | alef
  /-- The Hebrew lamed. Here and below: with a joiner of no width before it or without. -/
  | lamed (joiner : Bool)
  | ya (joiner : Bool)
  /-- The Buginese ya with a joiner and the vowel sign i before it. -/
  | vowelYa
  | tifinagh (joiner : Bool)
  /-- A consonant of Tifinagh with the consonant joiner before it. -/
  | bondedTifinagh
  | tone
  | orkhonI (joiner : Bool)
  | coengLetter
  | modifier
  | regional
  /-- At least two regional indicators. -/
  | regionals
  | emoji
  | joinedEmoji
  /-- A joined emoji with the sign of a key cap before it. -/
  | joinedKeycap
  /-- A joined emoji with one regional indicator before it. -/
  | joinedRegional
  /-- A joined emoji with several regional indicators before it, in odd number or even. -/
  | joinedRegionals (odd : Bool)
  /-- A joined emoji with the end of the code of a region before it. -/
  | tags (letters digits : Nat)
deriving DecidableEq, Repr

/-- How a variation selector wants the character before it. -/
inductive Presentation
  | emoji
  | text
deriving DecidableEq, Repr

structure Following where
  joint : Joint := .free
  selector : Option Presentation := none
deriving DecidableEq, Repr

namespace Joint

def joinerNumber : Nat := 0x200D

def isLetter : Joint → Bool
  | .alef | .lamed _ | .ya _ | .vowelYa | .tifinagh _ | .bondedTifinagh | .tone | .orkhonI _
  | .coengLetter => true
  | _ => false

/-- A base and a selector can be joined here to the emoji that follows. -/
def awaitsBase : Joint → Bool
  | .joinedEmoji | .joinedKeycap => true
  | _ => false

/-- The joint with a joiner before it. -/
def withJoiner : Joint → Joint
  | .lamed _ => .lamed true
  | .ya _ => .ya true
  | .tifinagh _ => .tifinagh true
  | .orkhonI _ => .orkhonI true
  | j => j

/-- The joint that a character makes by itself for the one before it. -/
def of (c : Char) : Joint :=
  if c.toNat = 0x5DC then .lamed false
  else if c.toNat = 0x1A10 then .ya false
  else if c.toNat = 0x10C03 then .orkhonI false
  else if isAlef c then .alef
  else if isTifinagh c then .tifinagh false
  else if endsTone c then .tone
  else if isCoengLetter c then .coengLetter
  else if isModifier c then .modifier
  else if isRegional c then .regional
  else if isEmoji c then .emoji
  else .free

/-- A character before the code of a region, which is read from its end. The code has three to six
letters, or up to four letters behind three digits, and a black flag stands before it. -/
def beforeTags (c : Char) (letters digits : Nat) : Option Joint :=
  if isTagLetter c then
    if digits = 0 ∧ letters < 6 then some (.tags (letters + 1) 0) else none
  else if isTagDigit c then
    if (digits = 0 ∧ letters ≤ 4) ∨ digits = 1 ∨ digits = 2 then some (.tags letters (digits + 1))
    else none
  else if c.toNat = 0x1F3F4 then
    if digits = 3 ∨ (digits = 0 ∧ 3 ≤ letters) then some .emoji else none
  else none

/-- The columns that a character adds to the joint it is joined to, and the joint of both, if it is
joined to it at all. What was counted for the joint already may be taken back: a Khmer letter goes
below the line, a consonant joiner is not seen between two consonants, and regional indicators make
flags from the left, so that only in even number the last of them can be part of what follows. -/
def join? (c : Char) : Joint → Option (Int × Joint)
  | .alef =>
    if isLam c then some (0, .free)
    else if isTransparent c then some (0, .alef)
    else none
  | .lamed true => if c.toNat = 0x5D0 then some (0, .free) else none
  | .coengLetter => if c.toNat = 0x17D2 then some (-1, .free) else none
  | .ya true => if c.toNat = 0x1A17 then some (0, .vowelYa) else none
  | .vowelYa => if c.toNat = 0x1A15 then some (0, .free) else none
  | .tifinagh joiner =>
    if c.toNat = 0x2D7F then some (1, .bondedTifinagh)
    else if joiner && isTifinagh c then some (0, .free)
    else none
  | .bondedTifinagh => if isTifinagh c then some (-1, .free) else none
  | .tone => if startsTone c then some (0, .free) else none
  | .orkhonI true => if c.toNat = 0x10C32 then some (0, .free) else none
  | .modifier =>
    if isModifiable c then some (0, .emoji)
    else if c.toNat = joinerNumber then some (0, .joinedEmoji)
    else none
  | .regional => if isRegional c then some (1, .regionals) else none
  | .regionals =>
    if isRegional c then some (1, .regionals)
    else if c.toNat = joinerNumber then some (0, .joinedEmoji)
    else none
  | .emoji => if c.toNat = joinerNumber then some (0, .joinedEmoji) else none
  | .joinedEmoji =>
    if c.toNat = 0x20E3 then some (0, .joinedKeycap)
    else if isRegional c then some (1, .joinedRegional)
    else if isModifier c then some (0, .modifier)
    else if c.toNat = 0xE007F then some (0, .tags 0 0)
    else if isEmoji c then some (0, .emoji)
    else none
  | .joinedRegional => if isRegional c then some (-1, .joinedRegionals false) else none
  | .joinedRegionals odd =>
    if isRegional c then
      if odd then some (-1, .joinedRegionals false) else some (3, .joinedRegionals true)
    else if c.toNat = joinerNumber then some (0, .joinedEmoji)
    else none
  | .tags letters digits => (beforeTags c letters digits).map fun j => (0, j)
  | _ => none

/-- The columns that a character adds before a joint, where no selector stands between them. -/
def before (c : Char) (j : Joint) : Int × Following :=
  if c.toNat ≤ 0xA0 then (1, {})
  else if c.toNat = 0xFE0F then
    (0, { joint := if j.isLetter || j.awaitsBase then j else .free, selector := some .emoji })
  else if c.toNat = 0xFE0E then
    (0, { joint := if j.isLetter then j else .free, selector := some .text })
  else if j.isLetter && j != .alef && isIgnorableMark c then
    (0, { joint := if c.toNat = joinerNumber then j.withJoiner else j })
  else match j.join? c with
    | some (size, joint) => (size, { joint })
    | none => (columns c, { joint := .of c })

end Joint

/-- The columns that a character adds before what follows, and what the next one meets. A selector
is for the character before it, and otherwise ignored. -/
def Following.before (f : Following) (c : Char) : Int × Following :=
  match f.selector with
  | some .emoji =>
    if isSelectable c then (if f.joint.awaitsBase then 0 else 2, { joint := .emoji })
    else (if f.joint.isLetter then f.joint else .free).before c
  | some .text => if isNarrowAsText c then (1, {}) else f.joint.before c
  | none => f.joint.before c

/-- The columns that the characters of a text take together. -/
def extent (cs : List Char) : Int :=
  (cs.foldr (fun c (size, following) =>
    let (added, following) := following.before c
    (size + added, following)) ((0 : Int), ({} : Following))).1

end Backstep.Text
