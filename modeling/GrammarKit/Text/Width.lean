import GrammarKit.Text.Printable
import GrammarKit.Text.Width.Table

/-!
The number of columns that a line takes on a terminal.

Most characters take one column; ideographs and emoji take two, marks and ignorable characters none.
Some sequences take fewer than their characters do by themselves: emoji joined by U+200D or with a
skin tone, Arabic lam before alef, and a few ligatures of other scripts. A variation selector widens
or narrows the character before it. A line is measured from its end, so that each character is met
knowing what follows it.
-/

namespace GrammarKit.Width

/-- The end of a ligature whose beginning has not been met yet. -/
inductive Ligature where
  | hebrewLamed
  | bugineseYa
  | bugineseVowel
  | tifinaghConsonant
  | tifinaghJoiner
  | lisuTone
  | orkhonI
  | khmerLetter
  | kiratVowelE
  | kiratVowelAi
  deriving DecidableEq, Repr

/-- The tags of a flag behind those met so far: letters, with digits in front of them. -/
structure Tags where
  letters : Nat
  digits : Nat
  deriving DecidableEq, Repr

/-- What follows the character to be measured, as far as it matters. -/
inductive Following where
  | plain
  | emoji
  | joinedEmoji
  | joinedKeycap
  | skinTone
  | flagLetters (several : Bool)
  | joinedFlag (letters : Nat)
  | joinedTags (tags : Tags)
  | alef
  /-- The end of a ligature, and whether there is a joiner in front of it. -/
  | ligature (last : Ligature) (joined : Bool)
  deriving DecidableEq, Repr

inductive Selector where
  | emoji
  | text
  | wideQuote
  deriving DecidableEq, Repr

structure State where
  following : Following
  selector : Option Selector
  deriving DecidableEq, Repr

def joiner : Char := '\u200d'

def isIn (ranges : List (Nat × Nat)) (c : Char) : Bool := inRanges ranges c.toNat

def isTifinagh (c : Char) : Bool := isIn [(0x2D31, 0x2D65), (0x2D6F, 0x2D6F)] c

def isKhmerLetter (c : Char) : Bool :=
  isIn [(0x1780, 0x1782), (0x1784, 0x1787), (0x1789, 0x178C), (0x178E, 0x1793), (0x1795, 0x1798),
    (0x179B, 0x179D), (0x17A0, 0x17A0), (0x17A2, 0x17A2), (0x17A7, 0x17A7), (0x17AB, 0x17AC),
    (0x17AF, 0x17AF)] c

def isSkinTone (c : Char) : Bool := isIn [(0x1F3FB, 0x1F3FF)] c

def isFlagLetter (c : Char) : Bool := isIn [(0x1F1E6, 0x1F1FF)] c

def isTagLetter (c : Char) : Bool := isIn [(0xE0061, 0xE007A)] c

def isTagDigit (c : Char) : Bool := isIn [(0xE0030, 0xE0039)] c

def isQuote (c : Char) : Bool := isIn [(0x2018, 0x2019), (0x201C, 0x201D)] c

def alone (c : Char) : Int :=
  if c.toNat ≤ 0xA0 then 1
  else if c.toNat = 0x17D8 then 3
  else if isIn zeroRanges c then 0
  else if isIn wideRanges c || isSkinTone c then 2
  else 1

def ligatureEnd? (c : Char) : Option Ligature :=
  if c = '\u05dc' then some .hebrewLamed
  else if c = '\u1a10' then some .bugineseYa
  else if isTifinagh c then some .tifinaghConsonant
  else if isIn [(0xA4FC, 0xA4FD)] c then some .lisuTone
  else if c.toNat = 0x10C03 then some .orkhonI
  else if isKhmerLetter c then some .khmerLetter
  else if c.toNat = 0x16D67 then some .kiratVowelE
  else if c.toNat = 0x16D68 then some .kiratVowelAi
  else none

def asFollowing (c : Char) : Following :=
  if isSkinTone c then .skinTone
  else if isFlagLetter c then .flagLetters false
  else if isIn emojiRanges c then .emoji
  else if isIn alefRanges c then .alef
  else match ligatureEnd? c with
    | some l => .ligature l false
    | none => .plain

def ligated (c : Char) (joined : Bool) : Ligature → Option (Int × Following)
  | .hebrewLamed => if joined && c = '\u05d0' then some (0, .plain) else none
  | .bugineseYa =>
    if joined && c = '\u1a17' then some (0, .ligature .bugineseVowel true) else none
  | .bugineseVowel => if c = '\u1a15' then some (0, .plain) else none
  | .tifinaghConsonant =>
    if c = '\u2d7f' then some (1, .ligature .tifinaghJoiner true)
    else if joined && isTifinagh c then some (0, .plain)
    else none
  | .tifinaghJoiner => if isTifinagh c then some (-1, .plain) else none
  | .lisuTone => if isIn [(0xA4F8, 0xA4FB)] c then some (0, .plain) else none
  | .orkhonI => if joined && c.toNat = 0x10C32 then some (0, .plain) else none
  | .khmerLetter => if c = '\u17d2' then some (-1, .plain) else none
  | .kiratVowelE =>
    if c.toNat = 0x16D63 || c.toNat = 0x16D69 then some (0, .plain)
    else if c.toNat = 0x16D67 then some (0, .ligature .kiratVowelAi true)
    else if c.toNat = 0x16D68 then some (1, .ligature .kiratVowelE true)
    else none
  | .kiratVowelAi => if c.toNat = 0x16D63 then some (0, .plain) else none

/-- One more tag, or the flag that the tags belong to: two letters or three digits name a country,
and letters behind them a part of it. -/
def tagged (c : Char) (t : Tags) : Option Following :=
  if isTagLetter c then
    if t.digits = 0 && t.letters < 6 then some (.joinedTags ⟨t.letters + 1, 0⟩) else none
  else if isTagDigit c then
    if t.digits < 3 && t.letters ≤ 4 then some (.joinedTags ⟨t.letters, t.digits + 1⟩) else none
  else if c.toNat = 0x1F3F4 && (t.digits = 3 || (t.digits = 0 && 3 ≤ t.letters)) then some .emoji
  else none

def merged (c : Char) : Following → Option (Int × Following)
  | .alef =>
    if isIn lamRanges c then some (0, .plain)
    else if isIn transparentRanges c then some (0, .alef)
    else none
  | .ligature l joined =>
    if c = joiner then some (0, .ligature l true)
    else if isIn ignorableMarkRanges c then some (0, .ligature l joined)
    else ligated c joined l
  | .skinTone =>
    if isIn modifierBaseRanges c then some (0, .emoji)
    else if c = joiner then some (0, .joinedEmoji)
    else none
  | .flagLetters several =>
    if isFlagLetter c then some (1, .flagLetters true)
    else if several && c = joiner then some (0, .joinedEmoji)
    else none
  | .emoji => if c = joiner then some (0, .joinedEmoji) else none
  | .joinedEmoji =>
    if isSkinTone c then some (0, .skinTone)
    else if isFlagLetter c then some (1, .joinedFlag 1)
    else if c.toNat = 0xE007F then some (0, .joinedTags ⟨0, 0⟩)
    else if c = '\u20e3' then some (0, .joinedKeycap)
    else if isIn emojiRanges c then some (0, .emoji)
    else none
  | .joinedFlag n =>
    if isFlagLetter c then some (if n % 2 = 0 then 3 else -1, .joinedFlag (n + 1))
    else if 2 ≤ n && c = joiner then some (0, .joinedEmoji)
    else none
  | .joinedTags t => (tagged c t).map fun f => (0, f)
  | .joinedKeycap => none
  | .plain => none

def Following.behindSelector : Following → Following
  | .alef => .alef
  | .ligature l joined => .ligature l joined
  | _ => .plain

def Following.behindEmojiSelector : Following → Following
  | .joinedEmoji => .joinedEmoji
  | .joinedKeycap => .joinedKeycap
  | f => f.behindSelector

/-- What follows when a selector turns out not to concern the character before it. -/
def State.withoutSelector (s : State) : Following :=
  if s.selector.isNone then s.following else s.following.behindSelector

def isJoined (f : Following) : Bool := f == .joinedEmoji || f == .joinedKeycap

def selected (c : Char) (s : State) : Option (Int × Following) :=
  match s.selector with
  | some .emoji =>
    if isIn emojiVariantRanges c then some (if isJoined s.following then 0 else 2, .emoji) else none
  | some .text => if isIn textVariantRanges c then some (1, .plain) else none
  | some .wideQuote => if isQuote c then some (2, .plain) else none
  | none => none

def step (c : Char) (s : State) : Int × State :=
  match selected c s with
  | some (n, f) => (n, ⟨f, none⟩)
  | none =>
    let f := s.withoutSelector
    if c.toNat ≤ 0xA0 then (1, ⟨.plain, none⟩)
    else if c = '\ufe0f' then (0, ⟨f.behindEmojiSelector, some .emoji⟩)
    else if c = '\ufe0e' then (0, ⟨f.behindSelector, some .text⟩)
    else if c = '\ufe01' then (0, ⟨f.behindSelector, some .wideQuote⟩)
    else
      match merged c f with
      | some (n, f) => (n, ⟨f, none⟩)
      | none => (alone c, ⟨asFollowing c, none⟩)

def columns (line : List Char) : Nat :=
  (line.reverse.foldl (fun (sum, s) c => match step c s with | (n, s) => (sum + n, s))
    ((0 : Int), State.mk .plain none)).1.toNat

end GrammarKit.Width
