/-
# Transact.Text.Base64 -- bytes as text in blocks of four characters

`encode` writes three bytes as four digits of the alphabet `A–Z a–z 0–9 + /` and fills the last
block with `=`.  `decode` accepts exactly the texts that `encode` writes: the length must be a
multiple of four, padding may stand only at the end of the last block, and the bits a padded block
leaves over must be zero.  `Malformed` names the four ways to fail; of two, the one in the earlier
block is reported.
-/
import Transact.Bytes
import Transact.Error
import Transact.Text.Quoted

namespace Transact.Text.Base64

set_option autoImplicit false

/-! ## The alphabet -/

/-- The character for a digit below 64. -/
def digit (n : Nat) : Char :=
  if n < 26 then Char.ofNat (65 + n)
  else if n < 52 then Char.ofNat (71 + n)
  else if n < 62 then Char.ofNat (n - 4)
  else if n = 62 then '+'
  else '/'

/-- The digit a byte stands for. -/
def value? (byte : UInt8) : Option Nat :=
  let n := byte.toNat
  if 65 ≤ n ∧ n ≤ 90 then some (n - 65)
  else if 97 ≤ n ∧ n ≤ 122 then some (n - 71)
  else if 48 ≤ n ∧ n ≤ 57 then some (n + 4)
  else if n = 43 then some 62
  else if n = 47 then some 63
  else none

/-- The byte of the padding character `=`. -/
def pad : UInt8 := 61

/-! ## Encoding -/

/-- The four digits of a number below 2^24. -/
def digits (triple : Nat) : List Char :=
  [digit (triple / Nat.pow 2 18 % 64), digit (triple / Nat.pow 2 12 % 64),
    digit (triple / Nat.pow 2 6 % 64), digit (triple % 64)]

/-- Three bytes as one number. -/
def triple (a b c : UInt8) : Nat := a.toNat * Nat.pow 2 16 + b.toNat * Nat.pow 2 8 + c.toNat

def encodeChars : Bytes → List Char
  | [] => []
  | [a] => (digits (triple a 0 0)).take 2 ++ ['=', '=']
  | [a, b] => (digits (triple a b 0)).take 3 ++ ['=']
  | a :: b :: c :: rest => digits (triple a b c) ++ encodeChars rest

def encode (bytes : Bytes) : String := String.ofList (encodeChars bytes)

/-! ## Decoding -/

/-- Why a text is not the encoding of any bytes. -/
inductive Malformed where
  | length (n : Nat)
  | padding (block : Nat)
  | character (byte : UInt8) (offset : Nat)
  | trailingBits (block : Nat)
  deriving DecidableEq

/-- A foreign byte is shown as the character with its number. -/
def Malformed.message : Malformed → String
  | .length n => "encoded length " ++ toString n ++ " is not a multiple of 4"
  | .padding block => "misplaced padding in block " ++ toString block
  | .character byte offset =>
      "invalid character " ++ quotedChar (Char.ofNat byte.toNat) ++ " at offset " ++ toString offset
  | .trailingBits block => "non-zero trailing bits in block " ++ toString block

def Malformed.toError (m : Malformed) : Error := .of .decodingError m.message

/-- Read digits one after another, the first at `offset`, onto the number `acc`. -/
def readDigits (offset acc : Nat) : Bytes → Except Malformed Nat
  | [] => .ok acc
  | byte :: rest =>
      match value? byte with
      | some n => readDigits (offset + 1) (acc * 64 + n) rest
      | none => .error (.character byte offset)

/-- How many padding characters stand at the end. -/
def padding (block : Bytes) : Nat := (block.reverse.takeWhile (· == pad)).length

/-- The three bytes of a number below 2^24. -/
def bytesOf (n : Nat) : Bytes :=
  [UInt8.ofNat (n / Nat.pow 2 16), UInt8.ofNat (n / Nat.pow 2 8), UInt8.ofNat n]

/-- Decode block number `index`, four bytes of which `padding` are fill. -/
def decodeBlock (index : Nat) (last : Bool) (block : Bytes) : Except Malformed Bytes :=
  let fill := padding block
  if fill > 2 || (fill > 0 && !last) then .error (.padding index)
  else
    match readDigits (index * 4) 0 (block.take (4 - fill)) with
    | .error m => .error m
    | .ok n =>
        let number := n * Nat.pow 64 fill
        if number % Nat.pow 256 fill ≠ 0 then .error (.trailingBits index)
        else .ok ((bytesOf number).take (3 - fill))

/-- Decode whole blocks, the first of which has number `index`. -/
def decodeBlocks (index : Nat) : Bytes → Except Malformed Bytes
  | a :: b :: c :: d :: rest =>
      match decodeBlock index rest.isEmpty [a, b, c, d] with
      | .error m => .error m
      | .ok bytes =>
          match decodeBlocks (index + 1) rest with
          | .error m => .error m
          | .ok more => .ok (bytes ++ more)
  | _ => .ok []

def decodeBytes (text : Bytes) : Except Malformed Bytes :=
  if text.length % 4 ≠ 0 then .error (.length text.length) else decodeBlocks 0 text

/-- The UTF-8 form of a text. -/
def utf8 (text : String) : Bytes := text.toList.flatMap String.utf8EncodeChar

def decode (text : String) : Except Error Bytes := (decodeBytes (utf8 text)).mapError (·.toError)

end Transact.Text.Base64
