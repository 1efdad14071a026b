import TinyRiscvOs.Fs.Fat32Chain

/-!
# The loops with counted requests

The loops of `fat32_read` and `fat32_write` once more, with the number of
requests made to the block device: an access may depend on the number of its
first request.  Whatever the accesses do to the memory, the counters depend
only on the table that the loops follow, so the requests are known from the
table and the range.
-/

namespace TinyRiscvOs.Fs

open TinyRiscvOs.Lib

/-! ## The code -/

/-- The variables of the loops, the number of requests made and the walk. -/
structure Counted where
  cursor : Cursor
  requests : Nat
  walk : Walk

/-- `sectorLoop`, where an access makes `each` requests. -/
def countedSectorLoop (access : Nat → Access) (each : Nat)
    (volume : Fat32Volume) (maxCfo cluster : Nat) :
    Nat → Nat → Counted → Counted
  | 0, _, counted => counted
  | rest + 1, sector, ⟨cursor, requests, walk⟩ =>
      if cursor.passed + sectorSize ≤ cursor.cfo then
        countedSectorLoop access each volume maxCfo cluster rest (sector + 1)
          ⟨{ cursor with passed := cursor.passed + sectorSize }, requests,
            walk⟩
      else if cursor.passed ≥ maxCfo then ⟨cursor, requests, walk⟩
      else
        let passed := cursor.passed + (cursor.cfo - cursor.passed)
        let secOffset := passed % sectorSize
        let contentLeftSec := sectorSize - secOffset
        let contentLeft := maxCfo - passed
        let copyLen := min contentLeftSec contentLeft
        let target := (clusterToSector volume cluster + sector) % word64
        countedSectorLoop access each volume maxCfo cluster rest (sector + 1)
          ⟨{ cfo := passed + copyLen
             passed := passed + copyLen
             len := cursor.len + copyLen
             memory := access requests target secOffset copyLen cursor.len
               cursor.memory },
            requests + each, walk⟩

/-- `clusterLoop`, where an access makes `each` requests. -/
def countedClusterLoop (access : Nat → Access) (each : Nat)
    (volume : Fat32Volume) (maxCfo : Nat) :
    Nat → Nat → Counted → Option Counted
  | 0, _, _ => none
  | fuel + 1, cluster, counted =>
      if cluster < endOfChain then
        let counted :=
          countedSectorLoop access each volume maxCfo cluster
            volume.secPerCluster 0 counted
        let walk :=
          { counted.walk with visited := counted.walk.visited ++ [cluster] }
        if counted.cursor.passed ≥ maxCfo then
          some { counted with walk := walk }
        else
          countedClusterLoop access each volume maxCfo fuel
            (tableEntry counted.cursor.memory.driver.tableBuf cluster)
            { counted with
              walk := { walk with links := walk.links ++ [cluster] } }
      else
        some
          { counted with walk := { counted.walk with stop := some cluster } }

/-! ## Without the counter -/

section Forget

variable {access : Access} {each : Nat} {volume : Fat32Volume}
    {maxCfo cluster : Nat}

theorem countedSectorLoop_cursor {rest sector : Nat} {counted : Counted} :
    (countedSectorLoop (fun _ => access) each volume maxCfo cluster rest sector
        counted).cursor =
      sectorLoop access volume maxCfo cluster rest sector counted.cursor := by
  induction rest generalizing sector counted with
  | zero => rfl
  | succ rest induction =>
      rw [countedSectorLoop, sectorLoop]
      split
      · exact induction
      · split
        · rfl
        · exact induction

theorem countedSectorLoop_walk {access : Nat → Access} {rest sector : Nat}
    {counted : Counted} :
    (countedSectorLoop access each volume maxCfo cluster rest sector
      counted).walk = counted.walk := by
  induction rest generalizing sector counted with
  | zero => rfl
  | succ rest induction =>
      rw [countedSectorLoop]
      split
      · exact induction
      · split
        · rfl
        · exact induction

/-- Forgetting the count leaves the loops of the driver. -/
theorem countedClusterLoop_forget {fuel : Nat} {counted : Counted} :
    (countedClusterLoop (fun _ => access) each volume maxCfo fuel cluster
        counted).map (fun final => (final.walk, final.cursor)) =
      clusterLoop access volume maxCfo fuel cluster counted.walk
        counted.cursor := by
  induction fuel generalizing cluster counted with
  | zero => rfl
  | succ fuel induction =>
      rw [countedClusterLoop, clusterLoop]
      split
      · dsimp only
        rw [countedSectorLoop_cursor, countedSectorLoop_walk]
        split
        · rfl
        · exact induction
      · rfl

end Forget

/-! ## The requests of the loops -/

/-- The number of sectors that hold the bytes before a position. -/
def sectorsBefore (position : Nat) : Nat :=
  (position + (sectorSize - 1)) / sectorSize

/-- The counters once `sectors` sectors are dealt with. -/
structure CountedProgress (each start maxCfo : Nat)
    (inv : Nat → Memory → Prop) (sectors : Nat) (counted : Counted) : Prop where
  progress : Progress start maxCfo inv sectors counted.cursor
  requests : counted.requests = 2 + each *
    (min sectors (sectorsBefore maxCfo) - start / sectorSize)

section Progress

variable {access : Nat → Access} {volume : Fat32Volume}
    {each start maxCfo : Nat} {inv : Nat → Memory → Prop}

theorem countedSectorLoop_progress {place : Nat → Nat} {cluster base : Nat}
    (ordered : start ≤ maxCfo)
    (keeps : ∀ k, Keeps (access k) start maxCfo place inv)
    (placed : ∀ sector, sector < volume.secPerCluster →
      place (base + sector) =
        (clusterToSector volume cluster + sector) % word64)
    {rest sector : Nat} {counted : Counted}
    (bound : sector + rest ≤ volume.secPerCluster)
    (holds : CountedProgress each start maxCfo inv (base + sector) counted) :
    CountedProgress each start maxCfo inv (base + sector + rest)
      (countedSectorLoop access each volume maxCfo cluster rest sector
        counted) := by
  induction rest generalizing sector counted with
  | zero => exact holds
  | succ rest induction =>
      have next : base + sector + (rest + 1) = base + (sector + 1) + rest := by
        omega
      obtain ⟨cursor, requests, walk⟩ := counted
      obtain ⟨progress, count⟩ := holds
      have passed := progress.passed
      have cfo := progress.cfo
      dsimp only at progress count
      rw [countedSectorLoop]
      split
      · next before =>
          have same : min (base + (sector + 1)) (sectorsBefore maxCfo) -
                start / sectorSize =
              min (base + sector) (sectorsBefore maxCfo) -
                start / sectorSize := by
            simp only [sectorsBefore, sectorSize] at *
            omega
          rw [next]
          exact induction (by omega)
            ⟨progress.skip ordered before, count.trans (by rw [same])⟩
      · next inside =>
          split
          · next reached =>
              have same : min (base + sector + (rest + 1))
                  (sectorsBefore maxCfo) =
                  min (base + sector) (sectorsBefore maxCfo) := by
                simp only [sectorsBefore, sectorSize] at *
                omega
              exact ⟨progress.complete reached (by omega),
                count.trans (by rw [same])⟩
          · next unfinished =>
              have more : min (base + (sector + 1)) (sectorsBefore maxCfo) -
                    start / sectorSize =
                  min (base + sector) (sectorsBefore maxCfo) -
                    start / sectorSize + 1 := by
                simp only [sectorsBefore, sectorSize] at *
                omega
              have moved := progress.move (keeps requests) ordered inside
                unfinished rfl rfl
              rw [placed sector (by omega)] at moved
              rw [next]
              refine induction (by omega) ⟨moved, ?_⟩
              dsimp only
              rw [more, count, Nat.mul_add, Nat.mul_one, ← Nat.add_assoc]

variable {clusters : Nat → Nat} {table : Bytes}

/-- The loops around accesses that keep the table and the invariant. -/
structure CountedSetting (access : Nat → Access) (volume : Fat32Volume)
    (start maxCfo : Nat) (clusters : Nat → Nat) (table : Bytes)
    (inv : Nat → Memory → Prop) : Prop where
  nonempty : 0 < volume.secPerCluster
  ordered : start ≤ maxCfo
  keeps : ∀ k, Keeps (access k) start maxCfo (placeOf volume clusters) inv
  kept : ∀ len memory, inv len memory → memory.driver.tableBuf = table
  linked : ∀ index, clusters (index + 1) = tableEntry table (clusters index)

/-- One cluster is dealt with. -/
theorem countedSectorLoop_cluster
    (setting : CountedSetting access volume start maxCfo clusters table inv)
    {index : Nat} {counted : Counted}
    (holds : CountedProgress each start maxCfo inv
      (index * volume.secPerCluster) counted) :
    CountedProgress each start maxCfo inv ((index + 1) * volume.secPerCluster)
      (countedSectorLoop access each volume maxCfo (clusters index)
        volume.secPerCluster 0 counted) := by
  have base : CountedProgress each start maxCfo inv
      (index * volume.secPerCluster + 0) counted := holds
  rw [Nat.succ_mul]
  exact countedSectorLoop_progress setting.ordered setting.keeps
    (fun _ inside => placeOf_cluster inside) (Nat.le_of_eq (Nat.zero_add _))
    base

/-- Where the loops stop: at the last byte or at an end mark. -/
structure LoopEnd (each : Nat) (volume : Fat32Volume) (start maxCfo : Nat)
    (clusters : Nat → Nat) (inv : Nat → Memory → Prop) (count : Nat)
    (final : Counted) : Prop where
  holds : CountedProgress each start maxCfo inv (count * volume.secPerCluster)
    final
  chain : ∀ index, index < count → clusters index < endOfChain
  stop : maxCfo ≤ final.cursor.passed ∨ endOfChain ≤ clusters count
  walk : WalkOf clusters (linkCount volume maxCfo) final.walk

/-- The walk over the first clusters. -/
def walkTo (clusters : Nat → Nat) (index : Nat) : Walk :=
  ⟨(List.range index).map clusters, (List.range index).map clusters, none⟩

theorem walkTo_succ (clusters : Nat → Nat) (index : Nat) :
    walkTo clusters (index + 1) =
      ⟨(walkTo clusters index).visited ++ [clusters index],
        (walkTo clusters index).links ++ [clusters index], none⟩ := by
  rw [walkTo, List.range_succ, List.map_append]
  rfl

theorem countedClusterLoop_end
    (setting : CountedSetting access volume start maxCfo clusters table inv)
    {fuel index : Nat} {counted final : Counted}
    (holds : CountedProgress each start maxCfo inv
      (index * volume.secPerCluster) counted)
    (chain : ∀ earlier, earlier < index → clusters earlier < endOfChain)
    (wanted : index ≤ linkCount volume maxCfo)
    (walked : counted.walk = walkTo clusters index)
    (ran : countedClusterLoop access each volume maxCfo fuel (clusters index)
      counted = some final) :
    ∃ count, LoopEnd each volume start maxCfo clusters inv count final := by
  induction fuel generalizing index counted with
  | zero => cases ran
  | succ fuel induction =>
      rw [countedClusterLoop] at ran
      split at ran
      · next inside =>
          have later := countedSectorLoop_cluster setting holds
          have passed := later.progress.passed
          have more : index < linkCount volume maxCfo ↔ _ :=
            lt_linkCount_iff setting.nonempty index
          have longer : ∀ earlier, earlier < index + 1 →
              clusters earlier < endOfChain := by
            intro earlier below
            rcases Nat.lt_succ_iff_lt_or_eq.1 below with before | rfl
            · exact chain earlier before
            · exact inside
          dsimp only at ran
          rw [countedSectorLoop_walk, walked] at ran
          split at ran
          · next reached =>
              cases Option.some.inj ran
              have last : index = linkCount volume maxCfo :=
                Nat.le_antisymm wanted (Nat.not_lt.1 fun below => by
                  have room := more.1 below
                  omega)
              refine ⟨index + 1, ⟨later.progress, later.requests⟩, longer,
                .inl reached, ?_⟩
              have done : WalkOf clusters index _ :=
                .done fun earlier le => longer earlier (Nat.lt_succ_of_le le)
              rw [List.range_succ, List.map_append] at done
              rw [← last]
              exact done
          · next unfinished =>
              rw [setting.kept _ _ later.progress.memory,
                ← setting.linked] at ran
              refine induction ?_ longer (more.2 (by omega)) ?_ ran
              · exact ⟨later.progress, later.requests⟩
              · exact (walkTo_succ clusters index).symm
      · next atMark =>
          cases Option.some.inj ran
          have mark := Nat.not_lt.1 atMark
          refine ⟨index, ⟨holds.progress, holds.requests⟩, chain, .inr mark, ?_⟩
          rw [walked]
          exact .stopped wanted chain mark

/-- The loops end. -/
theorem countedClusterLoop_terminates
    (setting : CountedSetting access volume start maxCfo clusters table inv)
    {left index : Nat} {counted : Counted}
    (holds : CountedProgress each start maxCfo inv
      (index * volume.secPerCluster) counted)
    (enough : linkCount volume maxCfo ≤ index + left) :
    ∃ final,
      countedClusterLoop access each volume maxCfo (left + 1) (clusters index)
        counted = some final := by
  induction left generalizing index counted with
  | zero =>
      have later := countedSectorLoop_cluster setting holds
      have last : maxCfo ≤
          sectorSize * ((index + 1) * volume.secPerCluster) :=
        Nat.not_lt.1 ((lt_linkCount_iff setting.nonempty index).not.1
          (Nat.not_lt.2 enough))
      have passed := later.progress.passed
      rw [Nat.min_eq_right last] at passed
      rw [countedClusterLoop]
      split
      · dsimp only
        rw [passed, if_pos (Nat.le_refl _)]
        exact ⟨_, rfl⟩
      · exact ⟨_, rfl⟩
  | succ left induction =>
      have later := countedSectorLoop_cluster setting holds
      rw [countedClusterLoop]
      split
      · dsimp only
        split
        · exact ⟨_, rfl⟩
        · rw [setting.kept _ _ later.progress.memory, ← setting.linked]
          refine induction ?_ (by omega)
          exact ⟨later.progress, later.requests⟩
      · exact ⟨_, rfl⟩

/-- The sector is wanted, and the links lead to its cluster. -/
def Reached (volume : Fat32Volume) (clusters : Nat → Nat) (maxCfo : Nat)
    (sector : Nat) : Prop :=
  sectorSize * sector < maxCfo ∧
    ∀ index, index ≤ sector / volume.secPerCluster →
      clusters index < endOfChain

/-- The counters of loops that reach the first `stop` sectors. -/
structure Outcome (each : Nat) (volume : Fat32Volume) (start maxCfo : Nat)
    (clusters : Nat → Nat) (stop : Nat) (final : Counted) : Prop where
  reached : ∀ sector, sector < stop ↔ Reached volume clusters maxCfo sector
  len : final.cursor.len = max start (min (sectorSize * stop) maxCfo) - start
  requests : final.requests = 2 + each * (stop - start / sectorSize)
  walk : WalkOf clusters (linkCount volume maxCfo) final.walk

theorem LoopEnd.outcome {count : Nat} {final : Counted}
    (nonempty : 0 < volume.secPerCluster)
    (ends : LoopEnd each volume start maxCfo clusters inv count final) :
    Outcome each volume start maxCfo clusters
      (min (count * volume.secPerCluster) (sectorsBefore maxCfo)) final := by
  have passed := ends.holds.progress.passed
  refine ⟨fun sector => ?_, ?_, ends.holds.requests, ends.walk⟩
  · have wanted : sector < sectorsBefore maxCfo ↔
        sectorSize * sector < maxCfo := by
      simp only [sectorsBefore, sectorSize]
      omega
    rw [lt_min_iff, wanted, Reached, and_comm,
      ← Nat.div_lt_iff_lt_mul nonempty]
    refine and_congr_right fun before => ⟨fun below index le =>
      ends.chain index (Nat.lt_of_le_of_lt le below), fun inside => ?_⟩
    rcases ends.stop with reached | atMark
    · rw [Nat.div_lt_iff_lt_mul nonempty]
      rw [passed] at reached
      have whole : maxCfo ≤ sectorSize * (count * volume.secPerCluster) := by
        omega
      exact Nat.lt_of_mul_lt_mul_left (Nat.lt_of_lt_of_le before whole)
    · exact Nat.not_le.1 fun beyond =>
        absurd (inside count beyond) (Nat.not_lt.2 atMark)
  · rw [ends.holds.progress.len, ends.holds.progress.cfo, passed]
    generalize count * volume.secPerCluster = sectors
    simp only [sectorsBefore, sectorSize]
    omega

/-- Two runs that follow the same links reach the same sectors. -/
theorem Outcome.stop_eq {other : Nat} {left right : Nat}
    {final final' : Counted}
    (first : Outcome each volume start maxCfo clusters left final)
    (second : Outcome other volume start maxCfo clusters right final') :
    left = right :=
  Nat.le_antisymm
    (Nat.not_lt.1 fun below => Nat.lt_irrefl right
      ((second.reached right).2 ((first.reached right).1 below)))
    (Nat.not_lt.1 fun below => Nat.lt_irrefl left
      ((first.reached left).2 ((second.reached left).1 below)))

end Progress

/-! ## Accesses that agree -/

section Agree

variable {access other : Nat → Access} {each : Nat} {volume : Fat32Volume}
    {maxCfo cluster total : Nat}

theorem countedSectorLoop_requests_le {rest sector : Nat} {counted : Counted} :
    counted.requests ≤
      (countedSectorLoop access each volume maxCfo cluster rest sector
        counted).requests := by
  induction rest generalizing sector counted with
  | zero => exact Nat.le_refl _
  | succ rest induction =>
      rw [countedSectorLoop]
      split
      · exact @induction (sector + 1)
          ⟨{ counted.cursor with
              passed := counted.cursor.passed + sectorSize },
            counted.requests, counted.walk⟩
      · split
        · exact Nat.le_refl _
        · exact (Nat.le_add_right counted.requests each).trans
            (@induction (sector + 1)
              ⟨_, counted.requests + each, counted.walk⟩)

theorem countedClusterLoop_requests_le {fuel : Nat} {counted final : Counted}
    (ran : countedClusterLoop access each volume maxCfo fuel cluster counted =
      some final) :
    counted.requests ≤ final.requests := by
  induction fuel generalizing cluster counted with
  | zero => cases ran
  | succ fuel induction =>
      rw [countedClusterLoop] at ran
      split at ran
      · dsimp only at ran
        split at ran
        · cases Option.some.inj ran
          exact countedSectorLoop_requests_le
        · have rest := induction ran
          exact countedSectorLoop_requests_le.trans rest
      · cases Option.some.inj ran
        exact Nat.le_refl _

theorem countedSectorLoop_congr {rest sector : Nat} {counted : Counted}
    (agree : ∀ k, counted.requests ≤ k → k + each ≤ total →
      access k = other k)
    (bound : (countedSectorLoop other each volume maxCfo cluster rest sector
      counted).requests ≤ total) :
    countedSectorLoop access each volume maxCfo cluster rest sector counted =
      countedSectorLoop other each volume maxCfo cluster rest sector
        counted := by
  induction rest generalizing sector counted with
  | zero => rfl
  | succ rest induction =>
      rw [countedSectorLoop] at bound
      rw [countedSectorLoop, countedSectorLoop]
      split
      · next before =>
          rw [if_pos before] at bound
          exact induction agree bound
      · next inside =>
          rw [if_neg inside] at bound
          split
          · rfl
          · next unfinished =>
              rw [if_neg unfinished] at bound
              dsimp only at bound ⊢
              have here := countedSectorLoop_requests_le.trans bound
              rw [agree counted.requests (Nat.le_refl _) here]
              exact induction
                (fun k le => agree k ((Nat.le_add_right _ each).trans le)) bound

/-- A run depends only on the accesses that are made in it. -/
theorem countedClusterLoop_congr {fuel : Nat} {counted final : Counted}
    (agree : ∀ k, counted.requests ≤ k → k + each ≤ final.requests →
      access k = other k)
    (ran : countedClusterLoop other each volume maxCfo fuel cluster counted =
      some final) :
    countedClusterLoop access each volume maxCfo fuel cluster counted =
      some final := by
  induction fuel generalizing cluster counted with
  | zero => cases ran
  | succ fuel induction =>
      rw [countedClusterLoop] at ran ⊢
      split
      · next inside =>
          rw [if_pos inside] at ran
          dsimp only at ran ⊢
          have bound : (countedSectorLoop other each volume maxCfo cluster
              volume.secPerCluster 0 counted).requests ≤ final.requests := by
            split at ran
            · exact (congrArg Counted.requests (Option.some.inj ran)).le
            · have rest := countedClusterLoop_requests_le ran
              exact rest
          rw [countedSectorLoop_congr agree bound]
          split
          · next reached => rwa [if_pos reached] at ran
          · next unfinished =>
              rw [if_neg unfinished] at ran
              refine induction (fun k le => ?_) ran
              exact agree k (countedSectorLoop_requests_le.trans le)
      · next atMark => rwa [if_neg atMark] at ran

end Agree

end TinyRiscvOs.Fs
