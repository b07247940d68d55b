import CoinScript.Guarded.Wire
import CoinScript.Proofs.Guarded.Basic
import CoinScript.Proofs.Script.Grammar

/-!
# Reading a script by positions stays within its bytes

The reader by positions reads what the reader of the remaining bytes reads. A
position is the length of the bytes in front of it, and every range that is
found where it is looked for starts with the bytes behind the position.
-/

namespace CoinScript

open Guarded

namespace Reading

/-- The remaining bytes are there for a push or they are not. -/
theorem range?_append (front rest : Bytes) (length : Nat) :
    range? (front ++ rest) front.length (front.length + length) =
      (Bytes.splitAt? length rest).map Prod.fst := by
  rw [range?, Bytes.splitAt?, List.length_append, List.length_take]
  by_cases enough : length ≤ rest.length
  · rw [if_pos ⟨by omega, by omega⟩, if_pos (by omega), List.take_length_add_append, List.drop_left]
    rfl
  · rw [if_neg (by omega), if_neg (by omega)]
    rfl

theorem pushAt_append (front rest : Bytes) (length : Nat) :
    pushAt (front ++ rest) length front.length =
      ofResult ((push length front.length rest).map fun r => (r.command, r.offset)) := by
  rw [pushAt, range?_append, push]
  cases Bytes.splitAt? length rest <;> rfl

/-- A push whose length takes up the bytes `head` in front of it. -/
theorem pushAt_append_append (front head rest : Bytes) (length : Nat) :
    pushAt (front ++ (head ++ rest)) length (front.length + head.length) =
      ofResult ((push length (front.length + head.length) rest).map
        fun r => (r.command, r.offset)) := by
  rw [← List.append_assoc, ← List.length_append]
  exact pushAt_append (front ++ head) rest length

theorem commandAt_append (front : Bytes) (first : UInt8) (rest : Bytes) :
    commandAt (front ++ first :: rest) front.length =
      ofResult ((command? first (front.length + 1) rest).map fun r => (r.command, r.offset)) := by
  unfold command?
  rw [commandAt, element_append, ok_bind]
  split
  · exact pushAt_append_append front [first] rest first.toNat
  split
  · cases rest with
    | nil =>
      have missing : (front ++ [first])[front.length + 1]? = none := by simp
      rw [missing]
      rfl
    | cons low rest =>
      have byte : (front ++ first :: low :: rest)[front.length + 1]? = some low := by simp
      rw [byte]
      exact pushAt_append_append front [first, low] rest low.toNat
  split
  · have moved (others : Bytes) :
        range? (front ++ first :: others) (front.length + 1) (front.length + 3) =
          (Bytes.splitAt? 2 others).map Prod.fst := by
      have found := range?_append (front ++ [first]) others 2
      rwa [List.append_assoc, List.length_append] at found
    rw [moved]
    rcases rest with _ | ⟨low, _ | ⟨high, rest⟩⟩
    · rfl
    · rfl
    · exact pushAt_append_append front [first, low, high] rest (low.toNat + 256 * high.toNat)
  · rfl

/-- What was read and what is left make up the bytes. -/
theorem offset_of_command? {first : UInt8} {offset : Nat} {rest : Bytes} {r : Reading}
    (read : command? first offset rest = .ok r) :
    r.offset + r.rest.length = offset + rest.length := by
  have pushed {length offset : Nat} {rest : Bytes} (read : push length offset rest = .ok r) :
      r.offset + r.rest.length = offset + rest.length := by
    obtain ⟨data, others, rfl, rfl, rfl⟩ := push_eq_ok_iff.mp read
    simp only [List.length_append]
    omega
  unfold command? at read
  split at read
  · exact pushed read
  split at read
  · split at read
    · have total := pushed read
      simp only [List.length_cons]
      omega
    · cases read
  split at read
  · split at read
    · have total := pushed read
      simp only [List.length_cons]
      omega
    · cases read
  · cases read
    rfl

end Reading

namespace Script

theorem parseAt_append {front data : Bytes} {offset : Nat} (position : front.length = offset) :
    parseAt (front ++ data) offset = ofResult (parseFrom offset data) := by
  fun_induction parseFrom offset data generalizing front with
  | case1 offset =>
    rw [parseAt, if_neg (by rw [List.append_nil]; omega)]
    rfl
  | case2 offset first rest e failed =>
    subst position
    rw [parseAt, if_pos (by simp)]
    split
    · rename_i halt stopped
      rw [Reading.commandAt_append, failed] at stopped
      cases stopped
      rfl
    · rename_i c next read
      rw [Reading.commandAt_append, failed] at read
      cases read
  | case3 offset first rest r read ih =>
    subst position
    rw [parseAt, if_pos (by simp)]
    split
    · rename_i halt stopped
      rw [Reading.commandAt_append, read] at stopped
      cases stopped
    · rename_i c next found
      rw [Reading.commandAt_append, read] at found
      cases found
      obtain ⟨form, -, split⟩ := Reading.form_of_command? read
      have total := Reading.offset_of_command? read
      have lengths : (first :: rest).length = (form ++ r.rest).length := congrArg List.length split
      rw [List.length_cons, List.length_append] at lengths
      rw [split, ← List.append_assoc, ih (by rw [List.length_append]; omega)]
      cases parseFrom r.offset r.rest <;> rfl

theorem guardedParseRaw_eq (limit : Nat) (data : Bytes) :
    guardedParseRaw limit data = ofResult (parseRaw limit data) := by
  unfold guardedParseRaw parseRaw
  split
  · rfl
  · exact parseAt_append (List.length_nil)

end Script

end CoinScript
