/-
Module: Haulage.Text.Width
Purpose: The number of columns that a text takes up where all letters have the same width.
Main exports: columns, Width.step
-/
import Haulage.Text.Width.Ranges

namespace Haulage

/-!
Most characters take up one column, two or none, each by itself.  Some change what the characters in
front of them take up: a selector asks for a letter to be drawn as a picture, a joiner makes one
picture out of several, and some pairs of letters are drawn as one.  So a text is measured from its
end, and what stands behind a character is remembered as far as it matters.
-/

namespace Width

/-- Letters that may be drawn as one with what stands in front of them. -/
inductive Joining where
  | hebrewLamed
  | khmerSubscript
  | bugineseYa
  | bugineseYaWithVowel
  | tifinagh
  | tifinaghWithJoiner
  | lisuTone
  | oldTurkicI
deriving DecidableEq, Repr

/-- What stands behind a character, as far as it matters. -/
inductive Behind where
  | nothing
  /-- A letter, and whether an invisible joiner stands in front of it. -/
  | letter (kind : Joining) (joined : Bool)
  | arabicAlef
  | kiratRaiE
  | kiratRaiAi
  | picture
  | skinTone
  /-- One letter of a flag. -/
  | flagLetter
  | flagLetters
  /-- A picture with an invisible joiner in front of it. -/
  | joiner
  /-- A joiner behind the frame of a key. -/
  | key
  /-- A joiner behind letters of flags, of which one, an even or an odd number were passed. -/
  | joinedFlagLetter
  | joinedFlags
  | joinedFlagsAndLetter
  /-- A joiner behind the letters and digits that end the name of a flag. -/
  | flagName (letters digits : Nat)
deriving DecidableEq, Repr

/-- A sign that selects how the character in front of it is drawn. -/
inductive Selector where
  | asText
  | asPicture
  | fullWidth
deriving DecidableEq, Repr

/-- What is remembered while a text is measured from its end. -/
structure State where
  behind : Behind
  selector : Option Selector
deriving DecidableEq, Repr

namespace Behind

/-- Nothing behind but what is given. -/
def alone (b : Behind) : State := ⟨b, none⟩

/-- Whether a selector leaves room for what stands behind it. -/
def outlastsSelector : Behind → Bool
  | letter _ _ | arabicAlef => true
  | _ => false

/-- What still matters behind a selector that has no effect. -/
def behindSelector (b : Behind) : Behind := if b.outlastsSelector then b else nothing

/-- Whether a picture is joined to what stands in front of it. -/
def joinsPictures : Behind → Bool
  | joiner | key => true
  | _ => false

end Behind

/-- Whether a character is a Tifinagh consonant. -/
def isTifinagh (n : Nat) : Bool := (0x2d31 ≤ n && n ≤ 0x2d65) || n = 0x2d6f

/-- Whether a character is a letter of a flag. -/
def isFlagLetter (n : Nat) : Bool := 0x1f1e6 ≤ n && n ≤ 0x1f1ff

/-- Whether a character is a tone of the skin. -/
def isSkinTone (n : Nat) : Bool := 0x1f3fb ≤ n && n ≤ 0x1f3ff

/-- Whether a character is a quotation mark that comes in two widths. -/
def isQuotationMark (n : Nat) : Bool := n = 0x2018 || n = 0x2019 || n = 0x201c || n = 0x201d

/-- Whether a character can be drawn as a picture on demand, also one that always is. -/
def startsPicture (n : Nat) : Bool :=
  isWithin pictureOnDemand n || isWithin textOnDemand n || n = 0x1f21a || n = 0x1f22f

/-- The columns of a character by itself, and what it is for the characters in front of it. -/
def byItself (n : Nat) : Int × Behind :=
  if n ≤ 0xa0 then (1, .nothing)
  else if isWithin zero n then (0, .nothing)
  else if n = 0x5dc then (1, .letter .hebrewLamed false)
  else if isWithin alef n then (1, .arabicAlef)
  else if isWithin khmerSubscripts n then (1, .letter .khmerSubscript true)
  else if n = 0x17d8 then (3, .nothing)
  else if n = 0x1a10 then (1, .letter .bugineseYa false)
  else if isTifinagh n then (1, .letter .tifinagh false)
  else if n = 0xa4fc || n = 0xa4fd then (1, .letter .lisuTone true)
  else if n = 0x10c03 then (1, .letter .oldTurkicI false)
  else if n = 0x16d67 then (1, .kiratRaiE)
  else if n = 0x16d68 then (1, .kiratRaiAi)
  else if isFlagLetter n then (1, .flagLetter)
  else if isSkinTone n then (2, .skinTone)
  else if isWithin pictures n then (2, .picture)
  else if isWithin double n then (2, .nothing)
  else (1, .nothing)

/-- The columns of a character that is drawn as one with a letter behind it.  What the letter itself
took up is counted already. -/
def withLetter (kind : Joining) (joined : Bool) (n : Nat) : Option (Int × Behind) :=
  match kind with
  | .hebrewLamed => if joined && n = 0x5d0 then some (0, .nothing) else none
  | .khmerSubscript => if n = 0x17d2 then some (-1, .nothing) else none
  | .bugineseYa =>
    if joined && n = 0x1a17 then some (0, .letter .bugineseYaWithVowel true) else none
  | .bugineseYaWithVowel => if n = 0x1a15 then some (0, .nothing) else none
  | .tifinagh =>
    if n = 0x2d7f then some (1, .letter .tifinaghWithJoiner true)
    else if joined && isTifinagh n then some (0, .nothing)
    else none
  | .tifinaghWithJoiner => if isTifinagh n then some (-1, .nothing) else none
  | .lisuTone => if 0xa4f8 ≤ n && n ≤ 0xa4fb then some (0, .nothing) else none
  | .oldTurkicI => if joined && n = 0x10c32 then some (0, .nothing) else none

/-- The columns of a character in front of a joiner that a picture follows. -/
def withJoiner (n : Nat) : Option (Int × Behind) :=
  if n = 0x20e3 then some (0, .key)
  else if isFlagLetter n then some (1, .joinedFlagLetter)
  else if isSkinTone n then some (0, .skinTone)
  else if n = 0xe007f then some (0, .flagName 0 0)
  else if (byItself n).2 = .picture then some (0, .picture)
  else none

/-- The columns of a character within the name of a flag, which is spelled with invisible letters
and digits behind a black flag. -/
def withFlagName (letters digits n : Nat) : Option (Int × Behind) :=
  if 0xe0061 ≤ n && n ≤ 0xe007a && digits = 0 && letters < 6 then
    some (0, .flagName (letters + 1) 0)
  else if 0xe0030 ≤ n && n ≤ 0xe0039 && letters < 5 && digits < 3 then
    some (0, .flagName (if digits = 0 then 0 else letters) (digits + 1))
  else if n = 0x1f3f4 && ((digits = 0 && 3 ≤ letters) || digits = 3) then some (0, .picture)
  else none

/-- The columns of a character that is drawn as one with what stands behind it, if it is. -/
def drawnTogether (b : Behind) (n : Nat) : Option (Int × Behind) :=
  let joiner : Option (Int × Behind) := if n = 0x200d then some (0, .joiner) else none
  match b with
  | .nothing => none
  | .letter kind joined => withLetter kind joined n
  | .arabicAlef =>
    if isWithin lam n then some (0, .nothing)
    else if isWithin zero n && !isWithin interrupting n then some (0, .arabicAlef)
    else none
  | .kiratRaiE =>
    if n = 0x16d63 || n = 0x16d69 then some (0, .nothing)
    else if n = 0x16d67 then some (0, .kiratRaiAi)
    else if n = 0x16d68 then some (1, .kiratRaiE)
    else none
  | .kiratRaiAi => if n = 0x16d63 then some (0, .nothing) else none
  | .picture => joiner
  | .skinTone => if isWithin withSkin n then some (0, .picture) else joiner
  | .flagLetter => if isFlagLetter n then some (1, .flagLetters) else none
  | .flagLetters => if isFlagLetter n then some (1, .flagLetters) else joiner
  | .joiner => withJoiner n
  | .key => none
  | .joinedFlagLetter => if isFlagLetter n then some (-1, .joinedFlags) else none
  | .joinedFlags => if isFlagLetter n then some (3, .joinedFlagsAndLetter) else joiner
  | .joinedFlagsAndLetter => if isFlagLetter n then some (-1, .joinedFlags) else joiner
  | .flagName letters digits => withFlagName letters digits n

/-- The columns of a character in front of something without a selector. -/
def unselected (b : Behind) (n : Nat) : Int × State :=
  let (width, behind) : Int × Behind :=
    match b with
    | .letter kind joined =>
      if n = 0x200d then (0, .letter kind true)
      else if isWithin unseen n then (0, .letter kind joined)
      else (drawnTogether b n).getD (byItself n)
    | b => (drawnTogether b n).getD (byItself n)
  (width, behind.alone)

/-- What is remembered in front of a selector. -/
def select (selector : Selector) (b : Behind) : State :=
  if selector = .asPicture && b.joinsPictures then ⟨b, some selector⟩
  else ⟨b.behindSelector, some selector⟩

/-- The columns of a character that no selector asks to be a picture. -/
def notAsPicture (s : State) (n : Nat) : Int × State :=
  if n ≤ 0xa0 then (1, Behind.nothing.alone)
  else if n = 0xfe0f then (0, select .asPicture s.behind)
  else if n = 0xfe0e then (0, select .asText s.behind)
  else if n = 0xfe01 then (0, select .fullWidth s.behind)
  else if s.selector = some .asText && isWithin textOnDemand n then (1, Behind.nothing.alone)
  else if s.selector = some .fullWidth && isQuotationMark n then (2, Behind.nothing.alone)
  else unselected s.behind n

/-- The columns that one more character in front of a text takes up, and what is then remembered. -/
def step (s : State) (n : Nat) : Int × State :=
  if s.selector = some .asPicture then
    if startsPicture n then (if s.behind.joinsPictures then 0 else 2, Behind.picture.alone)
    else notAsPicture s.behind.behindSelector.alone n
  else notAsPicture s n

/-- The columns that a text takes up, and what is remembered in front of it. -/
def measure (cs : List Char) : Int × State :=
  cs.foldr (fun c (width, s) =>
    let (more, s) := step s c.toNat
    (width + more, s)) (0, Behind.nothing.alone)

end Width

/-- The columns that a text takes up. -/
def columns (s : String) : Nat := (Width.measure s.toList).1.toNat

end Haulage
