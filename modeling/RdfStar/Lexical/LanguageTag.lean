import RdfStar.Text.Scan

/-!
# Language tags

A language tag is a list of subtags between hyphens: a language with up to three extensions of its
own, a script, a region, variants, extensions that a single character introduces, and private use,
which may also be all of it. A few registered tags of older form are accepted as they are. Case
does not matter, so a tag is judged in lower case.

Principal results: `lowerTag_lowerTag` — lower-casing a tag twice is lower-casing it once;
`acceptsTag_lowerTag` — lower-casing keeps a tag acceptable or not; `acceptsTag_ne_empty` — no
accepted tag is empty.
-/

namespace RdfStar.Lexical

open Text

/-! ## Subtags -/

abbrev Subtag := List Char

namespace Subtag

def isLetters (s : Subtag) : Bool := s.all Char.isAlpha

/-- A subtag in general: up to eight letters and digits, at least as many as asked for. -/
def isWord (least : Nat) (s : Subtag) : Bool :=
  decide (least ≤ s.length) && decide (s.length ≤ 8) && s.all Char.isAlphanum

def isLanguage (s : Subtag) : Bool := isWord 2 s && s.isLetters

/-- An extension of the language: three letters. -/
def isExtendedLanguage (s : Subtag) : Bool := s.length == 3 && s.isLetters

/-- A script: four letters. -/
def isScript (s : Subtag) : Bool := s.length == 4 && s.isLetters

/-- A region: two letters or three digits. -/
def isRegion (s : Subtag) : Bool :=
  (s.length == 2 && s.isLetters) || (s.length == 3 && s.all Char.isDigit)

/-- A variant: five to eight letters and digits, or four if the first is a digit. -/
def isVariant (s : Subtag) : Bool := isWord (if s.head?.any Char.isDigit then 4 else 5) s

/-- A single character, which introduces an extension or private use. -/
def isSingleton (s : Subtag) : Bool := s.length == 1 && isWord 1 s

end Subtag

/-! ## Tags -/

/-- Drops up to a number of leading elements that pass a test. -/
def dropUpTo {α : Type} (n : Nat) (p : α → Bool) (l : List α) : List α :=
  match n, l with
  | n + 1, a :: rest => if p a then dropUpTo n p rest else a :: rest
  | _, _ => l

/-- Whether subtags are for private use: an x and one subtag or more. -/
def arePrivate : List Subtag → Bool
  | [] => false
  | s :: rest => s == ['x'] && !rest.isEmpty && rest.all (Subtag.isWord 1)

/-- Whether subtags are extensions, perhaps with private use at their end. An extension is a
singleton with one subtag or more; `waiting` tells whether the last singleton still waits for its
first. -/
def areExtensions (waiting : Bool) : List Subtag → Bool
  | [] => !waiting
  | s :: rest =>
    if s = ['x'] then !waiting && arePrivate (s :: rest)
    else if s.isSingleton then !waiting && areExtensions true rest
    else s.isWord 2 && areExtensions false rest

/-- What may follow the variants: nothing, or extensions from a singleton on. -/
def isEnding (subtags : List Subtag) : Bool :=
  subtags.head?.all Subtag.isSingleton && areExtensions false subtags

/-- A tag of the regular form. Only a language of two or three letters has extensions of its
own. -/
def isRegular : List Subtag → Bool
  | [] => false
  | language :: rest =>
    let extensions := if language.length < 4 then 3 else 0
    let afterLanguage := dropUpTo extensions Subtag.isExtendedLanguage rest
    let afterScript := dropUpTo 1 Subtag.isScript afterLanguage
    let afterRegion := dropUpTo 1 Subtag.isRegion afterScript
    language.isLanguage && isEnding (afterRegion.dropWhile Subtag.isVariant)

/-- The registered tags of older form. -/
def registered : List String := [
  "art-lojban", "cel-gaulish", "en-gb-oed", "i-ami", "i-bnn", "i-default", "i-enochian", "i-hak",
  "i-klingon", "i-lux", "i-mingo", "i-navajo", "i-pwn", "i-tao", "i-tay", "i-tsu", "no-bok",
  "no-nyn", "sgn-be-fr", "sgn-be-nl", "sgn-ch-de", "zh-guoyu", "zh-hakka", "zh-min", "zh-min-nan",
  "zh-xiang"]

/-- The tag in lower case. -/
def lowerTag (tag : String) : String := String.ofList (tag.toList.map Char.toLower)

/-- Whether a text is a language tag: a registered one, or one whose subtags are of the regular
form or all for private use. -/
def acceptsTag (tag : String) : Bool :=
  let subtags := pieces '-' (lowerTag tag).toList
  registered.contains (lowerTag tag) || arePrivate subtags || isRegular subtags

/-! ## Lower case -/

theorem isUpper_iff {c : Char} : c.isUpper = true ↔ 'A'.val ≤ c.val ∧ c.val ≤ 'Z'.val :=
  decide_eq_true_iff

theorem toLower_of_isUpper {c : Char} (h : c.isUpper = false) : c.toLower = c := by
  unfold Char.toLower
  exact dif_neg fun upper => Bool.eq_false_iff.mp h (isUpper_iff.mpr upper)

theorem toNat_toLower_of_isUpper {c : Char} (h : c.isUpper = true) :
    c.toLower.toNat = c.toNat + 32 := by
  have upper := isUpper_iff.mp h
  have e : c.toLower.val = c.val + 32 := by unfold Char.toLower; rw [dif_pos upper]; rfl
  simp only [UInt32.le_iff_toNat_le] at upper
  rw [Char.toNat, e, UInt32.toNat_add]
  simp at upper ⊢
  omega

theorem isUpper_toLower (c : Char) : c.toLower.isUpper = false := by
  cases h : c.isUpper with
  | false => rw [toLower_of_isUpper h, h]
  | true =>
    have e := toNat_toLower_of_isUpper h
    rw [Bool.eq_false_iff, ne_eq, isUpper_iff]
    rw [isUpper_iff] at h
    simp [UInt32.le_iff_toNat_le] at h ⊢
    omega

theorem toLower_toLower (c : Char) : c.toLower.toLower = c.toLower :=
  toLower_of_isUpper (isUpper_toLower c)

theorem lowerTag_lowerTag (tag : String) : lowerTag (lowerTag tag) = lowerTag tag := by
  simp only [lowerTag, String.toList_ofList, List.map_map]
  congr 1
  exact List.map_congr_left fun c _ => toLower_toLower c

theorem acceptsTag_lowerTag (tag : String) : acceptsTag (lowerTag tag) = acceptsTag tag := by
  simp only [acceptsTag, lowerTag_lowerTag]

theorem acceptsTag_ne_empty {tag : String} (h : acceptsTag tag = true) : tag ≠ "" := by
  rintro rfl
  revert h
  decide +kernel

end RdfStar.Lexical
