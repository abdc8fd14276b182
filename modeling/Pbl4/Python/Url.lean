/-
This file defines `urllib.parse.unquote`: in every run of ASCII characters, `%` and two
hexadecimal digits stand for a byte, and the bytes are read as UTF-8, with U+FFFD for
what is not UTF-8. Other characters stay as they are.
-/

import Mathlib.Data.List.Basic

namespace Python

/-! ### UTF-8 with replacement -/

/-- U+FFFD -/
def replacement : Char := '\ufffd'

/-- A continuation byte. -/
def isContinuation (byte : Nat) : Bool := 0x80 ≤ byte && byte ≤ 0xbf

/-- The bytes that may follow the first byte of a sequence of three. -/
def secondOfThree (first second : Nat) : Bool :=
  if first = 0xe0 then 0xa0 ≤ second && second ≤ 0xbf
  else if first = 0xed then 0x80 ≤ second && second ≤ 0x9f
  else isContinuation second

/-- The bytes that may follow the first byte of a sequence of four. -/
def secondOfFour (first second : Nat) : Bool :=
  if first = 0xf0 then 0x90 ≤ second && second ≤ 0xbf
  else if first = 0xf4 then 0x80 ≤ second && second ≤ 0x8f
  else isContinuation second

/-- One step of decoding: the character read and the bytes after it. A sequence that breaks
off is replaced up to the byte that does not fit. -/
def decodeChar (first : Nat) (rest : List Nat) : Char × List Nat :=
  if first < 0x80 then (Char.ofNat first, rest)
  else if 0xc2 ≤ first ∧ first ≤ 0xdf then
    match rest with
    | second :: after =>
        if isContinuation second then
          (Char.ofNat ((first - 0xc0) * 64 + (second - 0x80)), after)
        else (replacement, rest)
    | [] => (replacement, [])
  else if 0xe0 ≤ first ∧ first ≤ 0xef then
    match rest with
    | second :: third :: after =>
        if secondOfThree first second = false then (replacement, rest)
        else if isContinuation third then
          (Char.ofNat ((first - 0xe0) * 4096 + (second - 0x80) * 64 + (third - 0x80)), after)
        else (replacement, third :: after)
    | [second] => if secondOfThree first second then (replacement, []) else (replacement, rest)
    | [] => (replacement, [])
  else if 0xf0 ≤ first ∧ first ≤ 0xf4 then
    match rest with
    | second :: third :: fourth :: after =>
        if secondOfFour first second = false then (replacement, rest)
        else if isContinuation third = false then (replacement, third :: fourth :: after)
        else if isContinuation fourth then
          (Char.ofNat ((first - 0xf0) * 262144 + (second - 0x80) * 4096 +
            (third - 0x80) * 64 + (fourth - 0x80)), after)
        else (replacement, fourth :: after)
    | [second, third] =>
        if secondOfFour first second = false then (replacement, rest)
        else if isContinuation third then (replacement, []) else (replacement, [third])
    | [second] => if secondOfFour first second then (replacement, []) else (replacement, rest)
    | [] => (replacement, [])
  else (replacement, rest)

/-- `bytes.decode("utf-8", "replace")`; every step reads a byte, which bounds the steps. -/
def decodeReplace : Nat → List Nat → List Char
  | 0, _ => []
  | _ + 1, [] => []
  | fuel + 1, first :: rest =>
      (decodeChar first rest).1 :: decodeReplace fuel (decodeChar first rest).2

/-! ### Percent escapes -/

/-- The value of a hexadecimal digit. -/
def hexValue (char : Char) : Option Nat :=
  if '0' ≤ char ∧ char ≤ '9' then some (char.toNat - '0'.toNat)
  else if 'a' ≤ char ∧ char ≤ 'f' then some (char.toNat - 'a'.toNat + 10)
  else if 'A' ≤ char ∧ char ≤ 'F' then some (char.toNat - 'A'.toNat + 10)
  else none

/-- `unquote_to_bytes`, on ASCII characters. -/
def unquoteToBytes : List Char → List Nat
  | [] => []
  | '%' :: first :: second :: rest =>
      match hexValue first, hexValue second with
      | some high, some low => (high * 16 + low) :: unquoteToBytes rest
      | _, _ => '%'.toNat :: unquoteToBytes (first :: second :: rest)
  | first :: rest => first.toNat :: unquoteToBytes rest

/-- The text of a run of ASCII characters, last one first. -/
def unquoteRun (run : List Char) : List Char :=
  let bytes := unquoteToBytes run.reverse
  decodeReplace bytes.length bytes

/-- `unquote` after a run of ASCII characters. -/
def unquoteFrom (run : List Char) : List Char → List Char
  | [] => unquoteRun run
  | first :: rest =>
      if first.toNat < 0x80 then unquoteFrom (first :: run) rest
      else unquoteRun run ++ first :: unquoteFrom [] rest

/-- `unquote(text)` -/
def unquote (text : List Char) : List Char :=
  if '%' ∈ text then unquoteFrom [] text else text

example : unquote "docs%2Fa%20b.md%zz%C3%A9%E2%82".toList = "docs/a b.md%zzé\ufffd".toList := by
  decide +kernel

end Python
