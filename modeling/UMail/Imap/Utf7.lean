import UMail.Library.Base64
import UMail.Library.Utf16
import UMail.Storage.Keys

namespace UMail.Imap

open Base64 (Alphabet encodeToString decodeString)
open UMail.Storage (Bytes bytes)
open Utf8 (runes encodeRune runeError validString)
open Utf16 (isSurrogate units)

def mutf7Enc : Alphabet where
  letters := bytes "ABCDEFGHIJKLMNOPQRSTUVWXYZabcdefghijklmnopqrstuvwxyz0123456789+,"
  length_eq := by decide
  nodup := by decide
  noCR := by decide
  noLF := by decide

def isPrintable (r : Nat) : Bool := 0x20 ≤ r ∧ r ≤ 0x7E

def unitBytes (u : Nat) : Bytes := [.ofNat (u / 256), .ofNat u]

def flush (run : List Nat) : Bytes :=
  if run.length = 0 then [] else 38 :: encodeToString mutf7Enc (run.flatMap unitBytes) ++ [45]

def encodeLoop : List Nat → List Nat → Bytes
  | run, [] => flush run
  | run, r :: name =>
    if isPrintable r then
      flush run ++ (if r = 38 then bytes "&-" else encodeRune r) ++ encodeLoop [] name
    else encodeLoop (run ++ units r) name

def encodeMUTF7 (name : Bytes) : Bytes := encodeLoop [] (runes name)

def rawUnits : Bytes → List Nat
  | high :: low :: raw => (high.toNat * 256 + low.toNat) :: rawUnits raw
  | _ => []

def decodeUnits : List Nat → Option Bytes
  | [] => some []
  | [u] => if isSurrogate u || isPrintable u then none else some (encodeRune u)
  | u :: v :: us =>
    if isSurrogate u then
      if Utf16.decodeRune u v = runeError then none
      else (decodeUnits us).map (encodeRune (Utf16.decodeRune u v) ++ ·)
    else if isPrintable u then none
    else (decodeUnits (v :: us)).map (encodeRune u ++ ·)

def decodeShift (enc : Bytes) : Option Bytes :=
  if enc = [] then some (bytes "&")
  else (decodeString mutf7Enc enc).bind fun raw =>
    if raw.length % 2 ≠ 0 then none else decodeUnits (rawUnits raw)

-- One turn of the loop: what the piece in front stands for, and the rest.
def decodePiece (c : UInt8) (s : Bytes) : Option (Bytes × Bytes) :=
  if c ≠ 38 then
    if validString (c :: s.takeWhile (· ≠ 38)) then
      some (c :: s.takeWhile (· ≠ 38), s.dropWhile (· ≠ 38))
    else none
  else if 45 ∈ s then
    (decodeShift (s.takeWhile (· ≠ 45))).map fun text => (text, (s.dropWhile (· ≠ 45)).drop 1)
  else none

-- Every turn takes at least one byte, so the length is enough fuel.
def decodeLoop : Nat → Bytes → Option Bytes
  | 0, _ | _ + 1, [] => some []
  | fuel + 1, c :: s =>
    (decodePiece c s).bind fun piece => (decodeLoop fuel piece.2).map (piece.1 ++ ·)

def decodeMUTF7 (s : Bytes) : Option Bytes :=
  if 38 ∈ s then decodeLoop s.length s
  else if validString s then some s else none

end UMail.Imap
