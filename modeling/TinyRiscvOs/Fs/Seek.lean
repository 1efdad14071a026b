import TinyRiscvOs.Fs.Fat32Chain

/-!
# Where a seek lands

`fat32_lseek` forms its sum in an `int64_t` and clamps the stored value to the
file.  The sum of an offset and a position in the file can leave that type at
its upper end only; it then comes back negative and is clamped to the start of
the file.  The kernel is compiled without optimisation, so the sum wraps.
-/

namespace TinyRiscvOs.Fs

open TinyRiscvOs.Lib

/-- The sums from here on do not fit in an `int64_t`. -/
abbrev int64End : Int := 2 ^ 63

/-! ## Sums in 64 bits -/

theorem toInt64_of_fits {value : Int} (lower : -int64End ≤ value)
    (upper : value < int64End) : toInt64 value = value := by
  have half : ((word64 : Nat) : Int) = 2 * int64End := by norm_num
  rw [toInt64]
  exact Int.bmod_eq_of_le_mul_two (by omega) (by omega)

theorem toInt64_of_overflow {value : Int} (lower : int64End ≤ value)
    (upper : value < 2 * int64End) : toInt64 value = value - word64 := by
  have half : ((word64 : Nat) : Int) = 2 * int64End := by norm_num
  rw [toInt64, ← Int.sub_bmod_right]
  exact Int.bmod_eq_of_le_mul_two (by omega) (by omega)

/-! ## The clamp -/

/-- The two conditional expressions of `max` and `min`. -/
theorem clamp_eq {size : Int} (cfo : Int) :
    (if size < (if 0 > cfo then 0 else cfo) then size
      else if 0 > cfo then 0 else cfo) = min size (max 0 cfo) := by
  omega

/-- The position that the offset of a seek counts from. -/
def seekBase (size cfo : Int) (whence : Nat) : Int :=
  if whence = seekSet then 0 else if whence = seekCur then cfo else size

/-- The sum, brought into the file. -/
def seekTarget (size cfo offset : Int) (whence : Nat) : Int :=
  max 0 (min size (seekBase size cfo whence + offset))

section Seek

variable {volume : Fat32Volume} {driver : Driver} {file : File} {offset : Int}
    {whence : Nat}

theorem seekBase_bounds (whence : Nat) (start : 0 ≤ file.cfo)
    (inside : file.cfo ≤ driver.fileSize volume file) :
    0 ≤ seekBase (driver.fileSize volume file) file.cfo whence ∧
      seekBase (driver.fileSize volume file) file.cfo whence ≤
        driver.fileSize volume file := by
  have size : (0 : Int) ≤ driver.fileSize volume file := Int.natCast_nonneg _
  rw [seekBase]
  split
  · exact ⟨Int.le_refl 0, size⟩
  · split
    · exact ⟨start, inside⟩
    · exact ⟨size, Int.le_refl _⟩

/-- A seek clamps the sum as the code stores it. -/
theorem fat32Lseek_eq (volume : Fat32Volume) (driver : Driver) (file : File)
    (known : whence = seekSet ∨ whence = seekCur ∨
      whence = seekEnd)
    (low : -int64End ≤ offset) (high : offset < int64End) :
    ∃ cfo, cfo = min (driver.fileSize volume file : Int)
        (max 0 (toInt64
          (seekBase (driver.fileSize volume file) file.cfo whence + offset))) ∧
      fat32Lseek volume driver file offset whence =
        some (cfo, driver.loadDirectory volume file, { file with cfo := cfo }) := by
  have size : (driver.loadDirectory volume file).entrySize file =
      driver.fileSize volume file := rfl
  refine ⟨_, rfl, ?_⟩
  rcases known with set | cur | fromEnd
  · subst set
    have sum : toInt64 (0 + offset) = offset := by
      rw [Int.zero_add]
      exact toInt64_of_fits low high
    have base : seekBase (driver.fileSize volume file) file.cfo seekSet = 0 :=
      rfl
    simp only [fat32Lseek, size, clamp_eq, base, sum, if_pos, Option.map_some]
  · subst cur
    have base : seekBase (driver.fileSize volume file) file.cfo seekCur =
        file.cfo := rfl
    have other : seekCur ≠ seekSet := by decide
    simp only [fat32Lseek, size, clamp_eq, base, if_neg other, if_pos,
      Option.map_some]
  · subst fromEnd
    have base : seekBase (driver.fileSize volume file) file.cfo seekEnd =
        driver.fileSize volume file := rfl
    have other : seekEnd ≠ seekSet := by decide
    have another : seekEnd ≠ seekCur := by decide
    simp only [fat32Lseek, size, clamp_eq, base, if_neg other, if_neg another,
      if_pos, Option.map_some]

/-- Another origin is the endless loop of `Err`. -/
theorem fat32Lseek_known {moved : Int × Driver × File}
    (ran : fat32Lseek volume driver file offset whence = some moved) :
    whence = seekSet ∨ whence = seekCur ∨ whence = seekEnd := by
  by_contra unknown
  simp only [not_or] at unknown
  obtain ⟨set, cur, fromEnd⟩ := unknown
  rw [fat32Lseek, if_neg set, if_neg cur, if_neg fromEnd] at ran
  cases ran

/-- A sum that fits is clamped to the file. -/
theorem fat32Lseek_of_fits (known : whence = seekSet ∨ whence = seekCur ∨
      whence = seekEnd) (low : -int64End ≤ offset) (high : offset < int64End)
    (start : 0 ≤ file.cfo) (inside : file.cfo ≤ driver.fileSize volume file)
    (fits : seekBase (driver.fileSize volume file) file.cfo whence + offset <
      int64End) :
    fat32Lseek volume driver file offset whence =
      some (seekTarget (driver.fileSize volume file) file.cfo offset whence,
        driver.loadDirectory volume file,
        { file with
          cfo := seekTarget (driver.fileSize volume file) file.cfo offset
            whence }) := by
  obtain ⟨cfo, position, moved⟩ :=
    fat32Lseek_eq volume driver file known low high
  have base := seekBase_bounds whence start inside
  have landed : cfo =
      seekTarget (driver.fileSize volume file) file.cfo offset whence := by
    rw [position, toInt64_of_fits (by omega) fits, seekTarget]
    omega
  rw [moved, landed]

/-- A sum that does not fit leads to the start of the file. -/
theorem fat32Lseek_of_overflow (known : whence = seekSet ∨ whence = seekCur ∨
      whence = seekEnd) (low : -int64End ≤ offset) (high : offset < int64End)
    (start : 0 ≤ file.cfo) (inside : file.cfo ≤ driver.fileSize volume file)
    (overflow : int64End ≤
      seekBase (driver.fileSize volume file) file.cfo whence + offset) :
    fat32Lseek volume driver file offset whence =
      some (0, driver.loadDirectory volume file, { file with cfo := 0 }) := by
  obtain ⟨cfo, position, moved⟩ :=
    fat32Lseek_eq volume driver file known low high
  have base := seekBase_bounds whence start inside
  have small := driver.fileSize_lt volume file
  simp only [word32] at small
  have landed : cfo = 0 := by
    rw [position, toInt64_of_overflow overflow (by simp only [int64End] at *; omega)]
    simp only [word64, int64End] at *
    omega
  rw [moved, landed]

end Seek

/--
A seek lands at the sum clamped to the file, for every size, position in the
file, offset and origin, exactly when the sum fits in an `int64_t`.
-/
theorem fat32Lseek_clamps_iff {volume : Fat32Volume} {driver : Driver}
    {file : File} {offset : Int} {whence : Nat}
    (known : whence = seekSet ∨ whence = seekCur ∨ whence = seekEnd)
    (low : -int64End ≤ offset) (high : offset < int64End)
    (start : 0 ≤ file.cfo) (inside : file.cfo ≤ driver.fileSize volume file) :
    fat32Lseek volume driver file offset whence =
        some (seekTarget (driver.fileSize volume file) file.cfo offset whence,
          driver.loadDirectory volume file,
          { file with
            cfo := seekTarget (driver.fileSize volume file) file.cfo offset
              whence }) ↔
      seekBase (driver.fileSize volume file) file.cfo whence + offset <
        int64End := by
  refine ⟨fun lands => ?_,
    fat32Lseek_of_fits known low high start inside⟩
  by_contra overflow
  have overflow := Int.not_lt.1 overflow
  rw [fat32Lseek_of_overflow known low high start inside overflow] at lands
  have base := seekBase_bounds whence start inside
  -- The base is not zero, so the file is not empty and the sum is beyond its end.
  have zero : (0 : Int) =
      seekTarget (driver.fileSize volume file) file.cfo offset whence :=
    congrArg Prod.fst (Option.some.inj lands)
  have small := driver.fileSize_lt volume file
  simp only [seekTarget, word32, int64End] at *
  omega

namespace SecondTableSector

/-- The file with the cursor behind its first byte. -/
def advanced : File :=
  { file with cfo := 1 }

theorem advanced_size : driver.fileSize volume advanced = 600 :=
  fileSize

end SecondTableSector

/-- A step back to the start of a file. -/
theorem fat32Lseek_clamps_back :
    fat32Lseek SecondTableSector.volume SecondTableSector.driver
          SecondTableSector.advanced (-5) seekCur =
        some (seekTarget
            (SecondTableSector.driver.fileSize SecondTableSector.volume
              SecondTableSector.advanced)
            SecondTableSector.advanced.cfo (-5) seekCur,
          SecondTableSector.driver.loadDirectory SecondTableSector.volume
            SecondTableSector.advanced,
          { SecondTableSector.advanced with
            cfo := seekTarget
              (SecondTableSector.driver.fileSize SecondTableSector.volume
                SecondTableSector.advanced)
              SecondTableSector.advanced.cfo (-5) seekCur }) ↔
      seekBase
            (SecondTableSector.driver.fileSize SecondTableSector.volume
              SecondTableSector.advanced)
            SecondTableSector.advanced.cfo seekCur + -5 < int64End :=
  fat32Lseek_clamps_iff (.inr (.inl rfl)) (by decide) (by decide) (by decide)
    (by
      rw [SecondTableSector.advanced_size]
      decide)

/-- The largest offset leads to the start of the file instead of its end. -/
theorem fat32Lseek_overflows :
    fat32Lseek SecondTableSector.volume SecondTableSector.driver
          SecondTableSector.advanced (2 ^ 63 - 1) seekCur =
        some (0,
          SecondTableSector.driver.loadDirectory SecondTableSector.volume
            SecondTableSector.advanced,
          { SecondTableSector.advanced with cfo := 0 }) ∧
      seekTarget
          (SecondTableSector.driver.fileSize SecondTableSector.volume
            SecondTableSector.advanced)
          SecondTableSector.advanced.cfo (2 ^ 63 - 1) seekCur = 600 := by
  rw [SecondTableSector.advanced_size]
  refine ⟨?_, by decide⟩
  exact fat32Lseek_of_overflow (.inr (.inl rfl)) (by decide) (by decide)
    (by decide)
    (by
      rw [SecondTableSector.advanced_size]
      decide)
    (by decide)

end TinyRiscvOs.Fs
