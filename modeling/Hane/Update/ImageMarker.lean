import Hane.Foundations.Occurrences

/-! A reader of an executable is searched, chunk by chunk, for the marker that one build holds. -/

namespace Hane.Update

open Hane.Foundations

abbrev Chunk := List UInt8

/-- What a reader gives in turn; an empty chunk, or none, is the end. -/
abbrev Reads := List (Except Unit Chunk)

/-- The loop that searches a reader, with the window of the bytes before it. -/
def searchReads (needle window : Chunk) : Reads → Except Unit Bool
  | [] => .ok false
  | .error failure :: _ => .error failure
  | .ok chunk :: rest =>
      if chunk.isEmpty then
        .ok false
      else
        let grown := window ++ chunk
        if (windows needle.length grown).any (· == needle) then
          .ok true
        else
          searchReads needle (grown.drop (grown.length - (needle.length - 1))) rest

def readerContains (reads : Reads) (needle : Chunk) : Except Unit Bool :=
  if needle.isEmpty then .ok true else searchReads needle [] reads

/-- The loop holds a window after it read a chunk. -/
inductive WindowHolds (needle : Chunk)
    : (window : Chunk) → Reads → (chunk held : Chunk) → Prop where
  | read {window chunk : Chunk} {rest : Reads} (filled : chunk ≠ [])
    : WindowHolds needle window (.ok chunk :: rest) chunk (window ++ chunk)
  | later {window first chunk held : Chunk} {rest : Reads} (filled : first ≠ [])
    (missing : needle ∉ windows needle.length (window ++ first))
    (holds
      : WindowHolds needle
        ((window ++ first).drop ((window ++ first).length - (needle.length - 1))) rest chunk held)
    : WindowHolds needle window (.ok first :: rest) chunk held

/-- The loop finds a needle that is not in what it has read where it goes on, by induction on the
chunks.
-/
theorem searchReads_eq {needle : Chunk} (filled : needle ≠ []) {seen : Chunk} {chunks : List Chunk}
    (nonempty : ∀ chunk ∈ chunks, chunk ≠ []) (missing : ¬needle <:+: seen)
    : searchReads needle (seen.rtake (needle.length - 1)) (chunks.map .ok)
      = .ok (decide (needle <:+: seen ++ chunks.flatten)) := by
  induction chunks generalizing seen with
  | nil => simp [searchReads, missing]
  | cons chunk chunks ih =>
      obtain ⟨here, others⟩ := List.forall_mem_cons.mp nonempty
      have found : needle ∈ windows needle.length (seen.rtake (needle.length - 1) ++ chunk)
          ↔ needle <:+: seen ++ chunk := by
        rw [mem_windows_iff filled]
        exact (infix_append_iff.trans (or_iff_right missing)).symm
      rw [List.map_cons, searchReads, if_neg (by simpa using here), List.flatten_cons,
        ← List.append_assoc]
      by_cases inside : needle <:+: seen ++ chunk
      · have across : needle <:+: seen ++ chunk ++ chunks.flatten :=
          inside.trans (List.prefix_append _ _).isInfix
        rw [if_pos (by simpa using found.mpr inside), decide_eq_true across]
      · rw [if_neg (by simpa using mt found.mp inside), ← ih others inside]
        exact congrArg (searchReads needle · _) (rtake_append_rtake _ seen chunk)

/-- The window is at most a chunk and the start of a needle, by induction on what is held. -/
theorem WindowHolds.length_le {needle window chunk held : Chunk} {reads : Reads}
    (holds : WindowHolds needle window reads chunk held) (short : window.length ≤ needle.length - 1)
    : held.length ≤ chunk.length + (needle.length - 1) := by
  induction holds with
  | read filled =>
      rw [List.length_append]
      omega
  | later filled missing holds ih =>
      refine ih ?_
      rw [List.length_drop]
      omega

/-- What the search of a stream says, however the reader splits it. -/
theorem readerContains_eq {needle : Chunk} (filled : needle ≠ []) {chunks : List Chunk}
    (nonempty : ∀ chunk ∈ chunks, chunk ≠ [])
    : readerContains (chunks.map .ok) needle = .ok (decide (needle <:+: chunks.flatten)) := by
  have start : ¬needle <:+: [] := by simpa using filled
  have found := searchReads_eq filled nonempty start
  rw [List.rtake_nil, List.nil_append] at found
  rw [readerContains, if_neg (by simpa using filled)]
  exact found

/-- The search is exact however the reader splits the stream, and its window stays small.
Witness: `readerContains_split`.
-/
theorem readerContains_exact {needle : Chunk} (filled : needle ≠ []) {chunks : List Chunk}
    (nonempty : ∀ chunk ∈ chunks, chunk ≠ [])
    : readerContains (chunks.map .ok) needle = .ok (decide (needle <:+: chunks.flatten))
      ∧ ∀ chunk held, WindowHolds needle [] (chunks.map .ok) chunk held
        → held.length ≤ chunk.length + needle.length - 1 := by
  constructor
  · exact readerContains_eq filled nonempty
  · intro chunk held holds
    have size := List.length_pos_iff.mpr filled
    have bound := holds.length_le (Nat.zero_le _)
    omega

theorem readerContains_split
    : readerContains ([[104, 97], [110], [101, 45]].map .ok) [97, 110, 101]
        = .ok (decide ([97, 110, 101] <:+: [[104, 97], [110], [101, 45]].flatten))
      ∧ ∀ chunk held,
          WindowHolds [97, 110, 101] [] ([[104, 97], [110], [101, 45]].map .ok) chunk held
        → held.length ≤ chunk.length + [97, 110, 101].length - 1 :=
  readerContains_exact (by simp) (by simp)

end Hane.Update
