/-
This file models `pbl4.common.hashing`: the digest of some bytes, and the digest of a
file that is read in chunks. `hashlib` and the files are parameters, with what their
documentation says: an update appends to the message, and a read returns the next bytes,
as many as asked for at most, and none at the end only. How a file is cut into chunks is
up to the system. The two functions agree however it is cut, and `sha256_file` raises
nothing of its own.
-/

import Mathlib.Data.List.Basic

namespace Pbl4.Common

/-! ### The libraries -/

/-- `hashlib`: `sha256` starts a hash with some bytes, and `update` appends bytes to it. -/
structure Hashlib where
  Hash : Type
  sha256 : List UInt8 → Hash
  update : Hash → List UInt8 → Hash
  hexdigest : Hash → String
  update_sha256 : ∀ first second, update (sha256 first) second = sha256 (first ++ second)

/-- An `OSError`. -/
structure OsError where
  message : String

/-- Files opened for reading. A handle is an open file at some position, and `rest` is what it has
left to read. -/
structure Files where
  Handle : Type
  openFile : String → Except OsError Handle
  read : Nat → Handle → Except OsError (List UInt8 × Handle)
  rest : Handle → List UInt8
  read_rest : ∀ size handle chunk next, read size handle = .ok (chunk, next) →
    rest handle = chunk ++ rest next
  read_length : ∀ size handle chunk next, read size handle = .ok (chunk, next) →
    chunk.length ≤ size
  read_nil : ∀ size handle next, 0 < size → read size handle = .ok ([], next) → rest handle = []

variable (hashlib : Hashlib) (files : Files)

theorem Files.rest_shorter {size : Nat} {handle next : files.Handle} {chunk : List UInt8}
    (taken : files.read size handle = .ok (chunk, next)) (more : chunk ≠ []) :
    (files.rest next).length < (files.rest handle).length := by
  rw [files.read_rest _ _ _ _ taken, List.length_append]
  exact Nat.lt_add_of_pos_left (List.length_pos_iff.mpr more)

/-! ### The digests -/

/-- `sha256_bytes` -/
def sha256Bytes (data : List UInt8) : String := hashlib.hexdigest (hashlib.sha256 data)

/-- The loop of `sha256_file`: `while chunk := f.read(8192): h.update(chunk)`. -/
def updateAll (hash : hashlib.Hash) (handle : files.Handle) : Except OsError hashlib.Hash :=
  match _taken : files.read 8192 handle with
  | .error error => .error error
  | .ok (chunk, next) =>
      if _stop : chunk = [] then .ok hash else updateAll (hashlib.update hash chunk) next
termination_by (files.rest handle).length
decreasing_by exact files.rest_shorter _taken _stop

/-- `sha256_file` -/
def sha256File (path : String) : Except OsError String := do
  let handle ← files.openFile path
  let hash ← updateAll hashlib files (hashlib.sha256 []) handle
  return hashlib.hexdigest hash

/-! ### Agreement -/

/-- The handles that reads of 8192 bytes lead to. -/
inductive Files.Reads : files.Handle → files.Handle → Prop
  | refl (handle : files.Handle) : Reads handle handle
  | step {handle next last : files.Handle} {chunk : List UInt8}
      (taken : files.read 8192 handle = .ok (chunk, next)) (later : Reads next last) :
      Reads handle last

variable {hashlib} {files}

/-- After some bytes, the loop appends what is left, or stops at a read that fails. -/
theorem updateAll_spec {hash : hashlib.Hash} {handle : files.Handle} {done : List UInt8}
    (started : hash = hashlib.sha256 done) :
    updateAll hashlib files hash handle = .ok (hashlib.sha256 (done ++ files.rest handle)) ∨
      ∃ error last, files.Reads handle last ∧ files.read 8192 last = .error error ∧
        updateAll hashlib files hash handle = .error error := by
  fun_induction updateAll hashlib files hash handle generalizing done with
  | case1 hash handle error failed =>
    exact Or.inr ⟨error, handle, .refl handle, failed, rfl⟩
  | case2 hash handle next taken =>
    rw [files.read_nil _ _ _ (by decide) taken, List.append_nil, started]
    exact Or.inl rfl
  | case3 hash handle chunk next taken more inductionHypothesis =>
    have appended : hashlib.update hash chunk = hashlib.sha256 (done ++ chunk) := by
      rw [started, hashlib.update_sha256]
    rw [files.read_rest _ _ _ _ taken, ← List.append_assoc]
    rcases inductionHypothesis appended with finished | ⟨error, last, reads, failed, ran⟩
    · exact Or.inl finished
    · exact Or.inr ⟨error, last, .step taken reads, failed, ran⟩

end Pbl4.Common
