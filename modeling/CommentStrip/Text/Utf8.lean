import CommentStrip.Text.Basic

/-! UTF-8 in both directions. A fault says where the first byte stands that no character
explains, and how many bytes it spoils; a sequence that only lacks its end spoils no count. -/
namespace CommentStrip.Text.Utf8

inductive Fault where
  | invalid (length position : Nat)
  | incomplete (position : Nat)
  deriving DecidableEq, Repr

def Fault.message : Fault → String
  | .invalid length position =>
    "invalid utf-8 sequence of " ++ toString length ++ " bytes from index " ++ toString position
  | .incomplete position => "incomplete utf-8 byte sequence from index " ++ toString position

def encode (text : List Char) : List UInt8 := text.flatMap String.utf8EncodeChar

inductive Head where
  | char (c : Char) (more : Nat)
  | spoiled (length : Nat)
  | short
  deriving DecidableEq, Repr

def isTail (b : UInt8) : Bool := 0x80 ≤ b && b ≤ 0xBF

def payload (b : UInt8) : Nat := b.toNat % 64

/- The number of further bytes, the bounds of the next one and the bits of the first. -/
def lead (b : UInt8) : Option (Nat × UInt8 × UInt8 × Nat) :=
  if b < 0x80 then some (0, 0x80, 0xBF, b.toNat)
  else if b < 0xC2 then none
  else if b < 0xE0 then some (1, 0x80, 0xBF, b.toNat % 32)
  else if b = 0xE0 then some (2, 0xA0, 0xBF, b.toNat % 16)
  else if b = 0xED then some (2, 0x80, 0x9F, b.toNat % 16)
  else if b < 0xF0 then some (2, 0x80, 0xBF, b.toNat % 16)
  else if b = 0xF0 then some (3, 0x90, 0xBF, b.toNat % 8)
  else if b < 0xF4 then some (3, 0x80, 0xBF, b.toNat % 8)
  else if b = 0xF4 then some (3, 0x80, 0x8F, b.toNat % 8)
  else none

/- The tails still owed after `seen` good bytes whose bits are `value`. -/
def tails (value seen : Nat) : Nat → List UInt8 → Head
  | 0, _ => .char (Char.ofNat value) (seen - 1)
  | _ + 1, [] => .short
  | owed + 1, b :: rest =>
    if isTail b then tails (value * 64 + payload b) (seen + 1) owed rest else .spoiled seen

def head (b : UInt8) (rest : List UInt8) : Head :=
  match lead b with
  | none => .spoiled 1
  | some (0, _, _, value) => .char (Char.ofNat value) 0
  | some (owed + 1, low, high, value) =>
    match rest with
    | [] => .short
    | c :: later =>
      if low ≤ c && c ≤ high then tails (value * 64 + payload c) 2 owed later else .spoiled 1

def decodeFrom (position : Nat) : List UInt8 → Except Fault (List Char)
  | [] => .ok []
  | b :: rest =>
    match head b rest with
    | .spoiled length => .error (.invalid length position)
    | .short => .error (.incomplete position)
    | .char c more => (decodeFrom (position + more + 1) (rest.drop more)).map (c :: ·)
termination_by bytes => bytes.length
decreasing_by all_goals (simp only [List.length_cons, List.length_drop]; omega)

def decode (bytes : List UInt8) : Except Fault (List Char) := decodeFrom 0 bytes

def decodeLossy : List UInt8 → List Char
  | [] => []
  | b :: rest =>
    match head b rest with
    | .spoiled length => '\uFFFD' :: decodeLossy (rest.drop (length - 1))
    | .short => ['\uFFFD']
    | .char c more => c :: decodeLossy (rest.drop more)
termination_by bytes => bytes.length
decreasing_by all_goals (simp only [List.length_cons, List.length_drop]; omega)

end CommentStrip.Text.Utf8
