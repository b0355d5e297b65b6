import SealedColumns.Proofs.Checked
import SealedColumns.Reader.ByteSource

/-!
# Sources in memory and on disk

A source in memory compares a range with its size before it cuts the range out; a source on disk
goes to the start of the range, reads, and counts what it got. For each kind, the ranges that are
given are stated exactly, and what is given is the range itself.

The two kinds give the same ranges but for one case: an empty range that starts behind the
end. Nothing is missing from it on disk, where no position below `2 ^ 63` is refused, and in
memory it is out of bounds.
-/

namespace SealedColumns.ByteSource

variable {bytes part : Bytes} {start length : Nat}

theorem get_memory_eq_ok :
    (ByteSource.mk .memory bytes).get start length = .ok part ↔
      start + length ≤ bytes.length ∧ (bytes.drop start).take length = part := by
  show (if start + length ≤ bytes.length then bytes.slice start (start + length) else _) = _ ↔ _
  by_cases inside : start + length ≤ bytes.length
  · rw [if_pos inside, Bytes.slice, if_pos ⟨Nat.le_add_right _ _, inside⟩, Nat.add_sub_cancel_left]
    simp [inside]
  · rw [if_neg inside]
    simp [inside]

/-- On disk nothing is missing from an empty range. -/
theorem length_found_iff :
    ((bytes.drop start).take length).length = length ↔
      start + length ≤ bytes.length ∨ length = 0 := by
  rw [List.length_take, List.length_drop]
  omega

theorem get_disk_eq_ok :
    (ByteSource.mk .disk bytes).get start length = .ok part ↔
      start < 0x8000000000000000 ∧ (start + length ≤ bytes.length ∨ length = 0) ∧
        (bytes.drop start).take length = part := by
  rw [← length_found_iff]
  show (if 0x8000000000000000 ≤ start then _ else if _ then _ else _) = _ ↔ _
  by_cases positioned : start < 0x8000000000000000
  · rw [if_neg (Nat.not_le_of_lt positioned)]
    by_cases found : ((bytes.drop start).take length).length = length
    · rw [if_pos found]
      simp only [positioned, found, true_and, Except.ok.injEq]
    · rw [if_neg found]
      simp only [found, false_and, and_false, reduceCtorEq]
  · rw [if_pos (Nat.le_of_not_lt positioned)]
    simp [positioned]

/-- A source gives what follows a range together with the range, as far as it goes. -/
theorem get_extended {source : ByteSource} {short long : Nat}
    (h : source.get start short = .ok part) (longer : short ≤ long)
    (inside : long = short ∨ start + long ≤ source.size) :
    ∃ extra, source.get start long = .ok (part ++ extra) := by
  obtain rfl | inside := inside
  · exact ⟨[], by rw [List.append_nil, h]⟩
  obtain ⟨more, rfl⟩ := Nat.exists_eq_add_of_le longer
  obtain ⟨kind, bytes⟩ := source
  refine ⟨((bytes.drop start).drop short).take more, ?_⟩
  cases kind with
  | memory =>
      obtain ⟨_, rfl⟩ := get_memory_eq_ok.mp h
      exact get_memory_eq_ok.mpr ⟨inside, List.take_add⟩
  | disk =>
      obtain ⟨positioned, _, rfl⟩ := get_disk_eq_ok.mp h
      exact get_disk_eq_ok.mpr ⟨positioned, .inl inside, List.take_add⟩

/-- What comes of a request apart from the cause of a failure. -/
theorem toOption_eq_ite {x : Except Error Bytes} {given : Prop} [Decidable given]
    (h : ∀ part', x = .ok part' ↔ given ∧ part = part') :
    x.toOption = if given then some part else none := by
  by_cases inside : given
  · rw [if_pos inside, (h part).mpr ⟨inside, rfl⟩]
    rfl
  · rw [if_neg inside]
    cases outcome : x with
    | ok part' => exact absurd ((h part').mp outcome).1 inside
    | error e => rfl

/-- Each kind of source gives exactly the range that is asked for, or fails. In memory a range is
given if and only if it ends inside the source; on disk also if it is empty and its start is a
position of a file. So both give the same bytes or both fail, unless the range is empty and
starts behind the end. -/
theorem kinds_agree_iff (addressable : bytes.length < 0x8000000000000000) (start length : Nat) :
    ((ByteSource.mk .memory bytes).get start length).toOption =
      (if start + length ≤ bytes.length then some ((bytes.drop start).take length) else none) ∧
    ((ByteSource.mk .disk bytes).get start length).toOption =
      (if start + length ≤ bytes.length ∨ (length = 0 ∧ start < 0x8000000000000000) then
        some ((bytes.drop start).take length) else none) ∧
    (((ByteSource.mk .memory bytes).get start length).toOption =
        ((ByteSource.mk .disk bytes).get start length).toOption ↔
      ¬ (length = 0 ∧ bytes.length < start ∧ start < 0x8000000000000000)) := by
  have inMemory (part : Bytes) : (ByteSource.mk .memory bytes).get start length = .ok part ↔
      start + length ≤ bytes.length ∧ (bytes.drop start).take length = part := get_memory_eq_ok
  have onDisk (part : Bytes) : (ByteSource.mk .disk bytes).get start length = .ok part ↔
      (start + length ≤ bytes.length ∨ (length = 0 ∧ start < 0x8000000000000000)) ∧
        (bytes.drop start).take length = part := by
    rw [get_disk_eq_ok, ← and_assoc]
    exact and_congr_left fun _ => by omega
  have memory := toOption_eq_ite inMemory
  have disk := toOption_eq_ite onDisk
  refine ⟨memory, disk, ?_⟩
  rw [memory, disk]
  split
  · next inside =>
      rw [if_pos (Or.inl inside)]
      exact iff_of_true rfl (by omega)
  · next outside =>
      split
      · next given => exact iff_of_false (fun same => by cases same) (by omega)
      · next refused => exact iff_of_true rfl (by omega)

/-- An empty range behind the end of seven bytes. -/
theorem kinds_agree_iff_pastEnd :
    ((ByteSource.mk .memory [0x70, 0x61, 0x72, 0x71, 0x75, 0x65, 0x74]).get 8 0).toOption = none ∧
    ((ByteSource.mk .disk [0x70, 0x61, 0x72, 0x71, 0x75, 0x65, 0x74]).get 8 0).toOption =
      some [] := by
  have addressable : List.length [0x70, 0x61, 0x72, 0x71, 0x75, 0x65, (0x74 : UInt8)] <
      0x8000000000000000 := by decide
  obtain ⟨memory, disk, _⟩ := kinds_agree_iff addressable 8 0
  exact ⟨memory, disk⟩

end SealedColumns.ByteSource
