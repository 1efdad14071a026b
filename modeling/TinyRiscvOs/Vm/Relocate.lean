import TinyRiscvOs.Vm.DirectMap

/-!
# Switching to virtual addresses

The kernel starts at physical addresses.  `setup_vm` maps the direct map in
huge pages and leaves the physical addresses without an entry, so in `relocate`
the instruction behind the write of `satp` faults.  `stvec` has its virtual
address already, and the run goes on there.
-/

namespace TinyRiscvOs.Vm

open TinyRiscvOs.Lib
open TinyRiscvOs.Mm

/-! ## `setup_vm` -/

/-- `huge_page`. -/
abbrev hugePage : Nat := 0x40000000

/-- `create_pte`. -/
def createPte (pa : Nat) : Nat :=
  entry ((pa >>> 12) &&& ppnMask)
    (permA ||| permD ||| permX ||| permR ||| permW ||| permV)

/-- The number of iterations of the loop of `setup_vm`. -/
def Config.hugePages (cfg : Config) : Nat :=
  (cfg.phySize + (hugePage - 1)) / hugePage

/-- The first iterations, with `early_pgtbl` in the frame `early`. -/
def mapHugePages (early : Nat) (mem : Bytes) (count : Nat) : Bytes :=
  (List.range count).foldl
    (fun mem k =>
      setWord mem early (vpn 2 ((vmStart + hugePage * k) % 2 ^ 64))
        (createPte (phyStart + hugePage * k))) mem

/-- `setup_vm`. -/
def setupVm (cfg : Config) (early : Nat) (mem : Bytes) : Bytes :=
  mapHugePages early mem cfg.hugePages

/-- Where the kernel fetches from, with a table in `satp`. -/
def kernelFetch (mem : Bytes) (pgtbl va : Nat) : Option Nat :=
  if va < 2 ^ 38 ∨ 2 ^ 64 - 2 ^ 38 ≤ va then
    match pageWalk mem va 3 pgtbl with
    | none => none
    | some (leaf, level) =>
        if has permA leaf ∧ has permX leaf ∧ ¬ has permU leaf ∧
            entryPpn leaf % 512 ^ level = 0 then
          some (4096 * entryPpn leaf + va % (4096 * 512 ^ level))
        else none
  else none

/-- The addresses that `setup_vm` maps. -/
def Config.InHugePages (cfg : Config) (va : Nat) : Prop :=
  vmStart ≤ va ∧ va < vmStart + hugePage * cfg.hugePages

instance (cfg : Config) (va : Nat) : Decidable (cfg.InHugePages va) :=
  inferInstanceAs (Decidable (_ ∧ _))

/-- The direct map, in huge pages. -/
def Config.hugeAddress (cfg : Config) (va : Nat) : Option Nat :=
  if cfg.InHugePages va then some (va - pa2vaOffset) else none

section EarlyTable

variable {cfg : Config} {early count : Nat} {mem : Bytes}

theorem vpn_two (va : Nat) : vpn 2 va = va / 2 ^ 30 % 512 := by
  rw [vpn, Nat.shiftRight_eq_div_pow, show 0x1ff = 2 ^ 9 - 1 from rfl,
    Nat.and_two_pow_sub_one_eq_mod]

theorem createPte_eq {pa : Nat} (small : pa < 2 ^ 56) :
    createPte pa =
      entry (pa / 4096)
        (permA ||| permD ||| permX ||| permR ||| permW ||| permV) := by
  rw [createPte, Nat.shiftRight_eq_div_pow, show ppnMask = 2 ^ 44 - 1 from rfl,
    Nat.and_two_pow_sub_one_eq_mod, Nat.mod_eq_of_lt (by omega)]

/-- The entries of the huge pages mapped so far. -/
theorem word_mapHugePages (few : count ≤ 128) (index : Nat) :
    word (mapHugePages early mem count) early index =
      if 384 ≤ index ∧ index < 384 + count then
        createPte (phyStart + hugePage * (index - 384))
      else word mem early index := by
  induction count with
  | zero =>
      rw [if_neg (by omega)]
      rfl
  | succ count induction =>
      have place : vpn 2 ((vmStart + hugePage * count) % 2 ^ 64) =
          384 + count := by
        rw [vpn_two]
        simp only [vmStart, hugePage]
        omega
      have fits : createPte (phyStart + hugePage * count) < 2 ^ 64 := by
        rw [createPte_eq (by simp only [phyStart, hugePage]; omega)]
        exact entry_lt (by simp only [phyStart, hugePage]; omega) (by decide)
      have last : mapHugePages early mem (count + 1) =
          setWord (mapHugePages early mem count) early (384 + count)
            (createPte (phyStart + hugePage * count)) := by
        rw [mapHugePages, List.range_succ, List.foldl_append, List.foldl_cons,
          List.foldl_nil, place, mapHugePages]
      rw [last]
      by_cases here : index = 384 + count
      · rw [here, word_setWord _ _ _ fits, if_pos (by omega),
          Nat.add_sub_cancel_left]
      · rw [word_setWord_of_ne here, induction (by omega)]
        refine if_congr ?_ rfl rfl
        omega

theorem Config.hugePages_le (small : cfg.top ≤ 25) : cfg.hugePages ≤ 128 := by
  have memory := Sections.phySize_le small
  simp only [hugePages, hugePage]
  omega

/-- The flags of every huge page. -/
structure HugeFlags (leaf : Nat) : Prop where
  valid : has permV leaf
  read : has permR leaf
  write : has permW leaf
  execute : has permX leaf
  user : ¬ has permU leaf
  accessed : has permA leaf
  dirty : has permD leaf

theorem createPte_flags {pa : Nat} (small : pa < 2 ^ 56) :
    HugeFlags (createPte pa) := by
  have flag {bit : Nat} (low : bit < 10) :
      has (2 ^ bit) (createPte pa) ↔
        has (2 ^ bit)
          (permA ||| permD ||| permX ||| permR ||| permW ||| permV) := by
    rw [createPte_eq small]
    exact has_entry low
  exact
    { valid := (flag (show 0 < 10 by decide)).2 (by decide)
      read := (flag (show 1 < 10 by decide)).2 (by decide)
      write := (flag (show 2 < 10 by decide)).2 (by decide)
      execute := (flag (show 3 < 10 by decide)).2 (by decide)
      user := mt (flag (show 4 < 10 by decide)).1 (by decide)
      accessed := (flag (show 6 < 10 by decide)).2 (by decide)
      dirty := (flag (show 7 < 10 by decide)).2 (by decide) }

/-- The walk ends in the root: at a huge page, or without an entry. -/
theorem pageWalk_setupVm (small : cfg.top ≤ 25)
    (blank : ∀ index < 512, word mem early index = 0) {va : Nat}
    (canonical : va < 2 ^ 38 ∨ 2 ^ 64 - 2 ^ 38 ≤ va) (below : va < 2 ^ 64) :
    pageWalk (setupVm cfg early mem) va 3 early =
      if cfg.InHugePages va then
        some (createPte (phyStart + (va - vmStart) / hugePage * hugePage), 2)
      else none := by
  have few := Config.hugePages_le small
  have base : vmStart = 2 ^ 64 - 2 ^ 37 := by decide
  have place := vpn_two va
  rw [pageWalk, setupVm]
  by_cases inside : cfg.InHugePages va
  · have lower := inside.1
    have upper := inside.2
    have index : vpn 2 va = 384 + (va - vmStart) / hugePage := by
      rw [place]
      simp only [hugePage] at *
      omega
    have near : (va - vmStart) / hugePage < cfg.hugePages := by
      simp only [hugePage] at *
      omega
    have value : word (mapHugePages early mem cfg.hugePages) early (vpn 2 va) =
        createPte (phyStart + (va - vmStart) / hugePage * hugePage) := by
      rw [word_mapHugePages few, index, if_pos (by omega),
        Nat.add_sub_cancel_left, Nat.mul_comm hugePage]
    have memory : phyStart + (va - vmStart) / hugePage * hugePage < 2 ^ 56 := by
      simp only [phyStart, hugePage]
      omega
    have flags := createPte_flags memory
    rw [value, if_pos inside,
      if_neg fun bad => bad.elim (fun absent => absent flags.valid)
        fun unreadable => unreadable.1 flags.read, if_pos (Or.inl flags.read)]
  · have outside : ¬ (384 ≤ vpn 2 va ∧ vpn 2 va < 384 + cfg.hugePages) := by
      intro mapped
      rw [place] at mapped
      refine inside ⟨by omega, ?_⟩
      simp only [hugePage]
      omega
    have absent : word (mapHugePages early mem cfg.hugePages) early
        (vpn 2 va) = 0 := by
      rw [word_mapHugePages few, if_neg outside]
      refine blank _ ?_
      rw [place]
      omega
    rw [if_neg inside, absent, if_pos (Or.inl (not_has_zero permV))]

/-- The addresses of a huge page. -/
theorem hugeAddress_leaf (small : cfg.top ≤ 25) {va : Nat}
    (inside : cfg.InHugePages va) :
    entryPpn (createPte (phyStart + (va - vmStart) / hugePage * hugePage)) %
          512 ^ 2 = 0 ∧
      4096 * entryPpn
            (createPte (phyStart + (va - vmStart) / hugePage * hugePage)) +
          va % (4096 * 512 ^ 2) =
        va - pa2vaOffset := by
  have few := Config.hugePages_le small
  have base : vmStart = 2 ^ 64 - 2 ^ 37 := by decide
  have offset : pa2vaOffset + 2 ^ 31 = vmStart := by decide
  obtain ⟨lower, upper⟩ := inside
  simp only [hugePage] at *
  rw [createPte_eq (by simp only [phyStart]; omega),
    entryPpn_entry (by simp only [phyStart]; omega) (by decide)]
  simp only [phyStart]
  omega

/--
With a cleared table, `setup_vm` maps the direct map in whole huge pages, for
loads, stores and fetches of the kernel, and no other address.
-/
theorem setupVm_translates (small : cfg.top ≤ 25)
    (blank : ∀ index < 512, word mem early index = 0) {va : Nat}
    (below : va < 2 ^ 64) :
    kernelFetch (setupVm cfg early mem) early va = cfg.hugeAddress va ∧
      ∀ access ≠ Access.fetch,
        translate (setupVm cfg early mem) early .supervisor access va =
          cfg.hugeAddress va := by
  have base : vmStart = 2 ^ 64 - 2 ^ 37 := by decide
  rw [kernelFetch, Config.hugeAddress]
  by_cases canonical : va < 2 ^ 38 ∨ 2 ^ 64 - 2 ^ 38 ≤ va
  · have walk := pageWalk_setupVm small blank canonical below
    by_cases inside : cfg.InHugePages va
    · obtain ⟨aligned, address⟩ := hugeAddress_leaf small inside
      have memory : phyStart + (va - vmStart) / hugePage * hugePage <
          2 ^ 56 := by
        simp only [phyStart, hugePage]
        omega
      have flags := createPte_flags memory
      rw [if_pos inside] at walk
      refine ⟨?_, fun access isData => ?_⟩
      · rw [if_pos canonical, walk, if_pos inside]
        dsimp only
        rw [if_pos ⟨flags.accessed, flags.execute, flags.user, aligned⟩, address]
      · have allowed : allows .supervisor access
            (createPte (phyStart + (va - vmStart) / hugePage * hugePage)) =
              true := by
          cases access with
          | fetch => exact absurd rfl isData
          | load => simp [allows, flags.accessed, flags.read]
          | store => simp [allows, flags.accessed, flags.write, flags.dirty]
        rw [translate, if_pos canonical, walk, if_pos inside]
        dsimp only
        rw [if_pos ⟨allowed, aligned⟩, address]
    · rw [if_neg inside] at walk
      refine ⟨?_, fun access _ => ?_⟩
      · rw [if_pos canonical, walk, if_neg inside]
      · rw [translate, if_pos canonical, walk, if_neg inside]
  · have outside : ¬ cfg.InHugePages va := by
      rintro ⟨lower, _⟩
      omega
    refine ⟨?_, fun access _ => ?_⟩
    · rw [if_neg canonical, if_neg outside]
    · rw [translate, if_neg canonical, if_neg outside]

end EarlyTable

/-- A fetch in the direct map of the small kernel, and a store at the same physical address. -/
theorem setupVm_translates_small :
    kernelFetch (setupVm SmallKernel.config ramBase fun _ => 0) ramBase
        (vmStart + 0x1234) = some (phyStart + 0x1234) ∧
      translate (setupVm SmallKernel.config ramBase fun _ => 0) ramBase
        .supervisor .store (phyStart + 0x1234) = none := by
  have blank : ∀ index < 512, word (fun _ => 0) ramBase index = 0 :=
    fun index _ => Bytes.littleEndian_eq_zero fun _ _ _ => rfl
  have fetched := (@setupVm_translates SmallKernel.config ramBase (fun _ => 0)
    (by decide) blank (vmStart + 0x1234) (by decide)).1
  have stored := (@setupVm_translates SmallKernel.config ramBase (fun _ => 0)
    (by decide) blank (phyStart + 0x1234) (by decide)).2 .store (by decide)
  rw [fetched, stored]
  decide

/-! ## `relocate` -/

/-- The registers of `relocate`. -/
inductive Reg where
  | ra
  | sp
  | t0
  | t1
  | a0
  | a1
deriving DecidableEq, Repr

/-- The registers of the supervisor that it writes. -/
inductive Csr where
  | stvec
  | satp
deriving DecidableEq, Repr

/-- The symbols whose address it takes, relative to `pc`. -/
inductive BootSymbol where
  | tmpStvec
  | earlyPgtbl
deriving DecidableEq, Repr

inductive BootInstr where
  | la (rd : Reg) (symbol : BootSymbol)
  | li (rd : Reg) (value : Nat)
  | add (rd rs1 rs2 : Reg)
  | or (rd rs1 rs2 : Reg)
  | srli (rd rs : Reg) (shamt : Nat)
  | slli (rd rs : Reg) (shamt : Nat)
  | csrw (csr : Csr) (rs : Reg)
  | sfenceVma
  | ret
deriving DecidableEq, Repr

/-- The register that an instruction writes. -/
def BootInstr.dest : BootInstr → Option Reg
  | .la rd _ => some rd
  | .li rd _ => some rd
  | .add rd _ _ => some rd
  | .or rd _ _ => some rd
  | .srli rd _ _ => some rd
  | .slli rd _ _ => some rd
  | _ => none

/-- The register of the supervisor that it writes. -/
def BootInstr.csrDest : BootInstr → Option Csr
  | .csrw csr _ => some csr
  | _ => none

/-- The lines of `relocate`; the last one is at `tmp_stvec`. -/
def relocate : List BootInstr :=
  -- `la a1, 8` has no symbol, so it is a `li`
  [.la .t0 .tmpStvec, .li .t1 pa2vaOffset, .add .t0 .t0 .t1, .csrw .stvec .t0,
    .li .a0 pa2vaOffset, .add .ra .ra .a0, .add .sp .sp .a0,
    .la .a0 .earlyPgtbl, .srli .a0 .a0 12, .li .a1 8, .slli .a1 .a1 60,
    .or .a0 .a0 .a1, .sfenceVma, .csrw .satp .a0, .ret]

/-- The number of the line at `tmp_stvec`. -/
abbrev tmpStvec : Nat := 14

/-- Where the image has the lines and the table, as physical addresses. -/
structure Image where
  place : Nat → Nat
  early : Nat

/-- What the processor changes. -/
structure Hart where
  pc : Nat
  ra : Nat
  sp : Nat
  t0 : Nat
  t1 : Nat
  a0 : Nat
  a1 : Nat
  stvec : Nat
  satp : Nat
deriving DecidableEq, Repr

namespace Hart

def reg (h : Hart) : Reg → Nat
  | .ra => h.ra
  | .sp => h.sp
  | .t0 => h.t0
  | .t1 => h.t1
  | .a0 => h.a0
  | .a1 => h.a1

def setReg (h : Hart) (value : Nat) : Reg → Hart
  | .ra => { h with ra := value }
  | .sp => { h with sp := value }
  | .t0 => { h with t0 := value }
  | .t1 => { h with t1 := value }
  | .a0 => { h with a0 := value }
  | .a1 => { h with a1 := value }

def csr (h : Hart) : Csr → Nat
  | .stvec => h.stvec
  | .satp => h.satp

def setCsr (h : Hart) (value : Nat) : Csr → Hart
  | .stvec => { h with stvec := value }
  | .satp => { h with satp := value }

theorem reg_ra (h : Hart) : h.reg .ra = h.ra :=
  rfl

theorem reg_sp (h : Hart) : h.reg .sp = h.sp :=
  rfl

theorem csr_stvec (h : Hart) : h.csr .stvec = h.stvec :=
  rfl

theorem csr_satp (h : Hart) : h.csr .satp = h.satp :=
  rfl

/-- The physical address of the next instruction; `MODE` is in the top bits of `satp`. -/
def fetchAddress (mem : Bytes) (h : Hart) : Option Nat :=
  if h.satp >>> 60 = 0 then some h.pc
  else kernelFetch mem (h.satp % 2 ^ 44) h.pc

end Hart

namespace Image

/-- The physical address of a symbol. -/
def target (image : Image) : BootSymbol → Nat
  | .tmpStvec => image.place tmpStvec
  | .earlyPgtbl => 4096 * image.early

/-- The address that line `k` at `pc` takes for it. -/
def address (image : Image) (pc k : Nat) (symbol : BootSymbol) : Nat :=
  (pc + wordSub (image.target symbol) (image.place k)) % 2 ^ 64

/-- The line at a physical address. -/
def lineAt (image : Image) (address : Nat) : Option Nat :=
  (List.range relocate.length).find? fun k => image.place k = address

/-- The effect of an instruction, apart from `pc`. -/
def effect (image : Image) (k : Nat) (h : Hart) : BootInstr → Hart
  | .la rd symbol => h.setReg (image.address h.pc k symbol) rd
  | .li rd value => h.setReg value rd
  | .add rd rs1 rs2 => h.setReg ((h.reg rs1 + h.reg rs2) % 2 ^ 64) rd
  | .or rd rs1 rs2 => h.setReg (h.reg rs1 ||| h.reg rs2) rd
  | .srli rd rs shamt => h.setReg (h.reg rs >>> shamt) rd
  | .slli rd rs shamt => h.setReg ((h.reg rs <<< shamt) % 2 ^ 64) rd
  | .csrw csr rs => h.setCsr (h.reg rs) csr
  | .sfenceVma => h
  | .ret => h

/-- Where the run goes on behind line `k`. -/
def nextPc (image : Image) (k : Nat) (h : Hart) : BootInstr → Nat
  | .ret => h.ra
  | _ => (h.pc + wordSub (image.place (k + 1)) (image.place k)) % 2 ^ 64

/-- Line `k`. -/
def exec (image : Image) (k : Nat) (h : Hart) (instr : BootInstr) : Hart :=
  { image.effect k h instr with pc := image.nextPc k h instr }

/--
One step of the processor.  A fetch that faults goes on at `stvec`, whose low
two bits are its mode; `none` is a fetch outside of `relocate`.
-/
def step (image : Image) (mem : Bytes) (h : Hart) : Option Hart :=
  match h.fetchAddress mem with
  | none => some { h with pc := h.stvec / 4 * 4 }
  | some address =>
      (image.lineAt address).bind fun k =>
        relocate[k]?.map (image.exec k h)

/-- A number of steps. -/
def steps (image : Image) (mem : Bytes) : Nat → Hart → Option Hart
  | 0, h => some h
  | count + 1, h =>
      (image.step mem h).bind (image.steps mem count)

/-- The linker has put the lines one behind the other into the memory. -/
structure Placed (image : Image) (cfg : Config) : Prop where
  increasing : ∀ k < tmpStvec, image.place k < image.place (k + 1)
  lower : phyStart ≤ image.place 0
  upper : image.place tmpStvec < phyStart + cfg.phySize
  aligned : image.place tmpStvec % 4 = 0
  early : 4096 * image.early < phyStart + cfg.phySize

end Image

namespace Image

section Lines

variable {image : Image} {cfg : Config} {mem : Bytes} {h : Hart} {k : Nat}

theorem Placed.place_lt (placed : image.Placed cfg) {i j : Nat} (less : i < j)
    (last : j ≤ tmpStvec) : image.place i < image.place j := by
  induction j with
  | zero => exact absurd less (Nat.not_lt_zero i)
  | succ j induction =>
      have next := placed.increasing j last
      rcases Nat.lt_succ_iff_lt_or_eq.1 less with before | rfl
      · exact (induction before (by omega)).trans next
      · exact next

theorem Placed.place_bounds (placed : image.Placed cfg) (line : k ≤ tmpStvec) :
    phyStart ≤ image.place k ∧ image.place k < phyStart + cfg.phySize := by
  have first : image.place 0 ≤ image.place k := by
    rcases Nat.eq_zero_or_pos k with rfl | positive
    · exact Nat.le_refl _
    · exact (placed.place_lt positive line).le
  have last : image.place k ≤ image.place tmpStvec := by
    rcases Nat.eq_or_lt_of_le line with rfl | before
    · exact Nat.le_refl _
    · exact (placed.place_lt before (Nat.le_refl _)).le
  exact ⟨placed.lower.trans first, last.trans_lt placed.upper⟩

/-- Different lines have different places. -/
theorem Placed.lineAt_place (placed : image.Placed cfg) (line : k ≤ tmpStvec) :
    image.lineAt (image.place k) = some k := by
  rw [lineAt, List.find?_range_eq_some]
  refine ⟨decide_eq_true rfl, List.mem_range.2 (Nat.lt_succ_of_le line),
    fun other before => ?_⟩
  have different := (placed.place_lt before line).ne
  simpa using different

/-- The lines one after the other, wherever they are fetched from. -/
def afterLines (image : Image) (h : Hart) : Nat → Hart
  | 0 => h
  | k + 1 => image.exec k (image.afterLines h k) (relocate.getD k .ret)

/-- The address of a symbol, taken at the physical address of the line. -/
theorem address_physical {pc : Nat} {symbol : BootSymbol}
    (here : pc = image.place k) (low : image.place k < 2 ^ 64)
    (small : image.target symbol < 2 ^ 64) :
    image.address pc k symbol = image.target symbol := by
  rw [address, here, wordSub]
  simp only [wordModulus]
  split <;> omega

theorem exec_next (placed : image.Placed cfg) (small : cfg.top ≤ 25)
    (line : k < tmpStvec) (here : h.pc = image.place k) {instr : BootInstr}
    (goesOn : instr ≠ .ret) :
    (image.exec k h instr).pc = image.place (k + 1) := by
  have memory := Sections.phySize_le small
  have upper := (placed.place_bounds (show k + 1 ≤ tmpStvec from line)).2
  have less := placed.increasing k line
  have next : (h.pc + wordSub (image.place (k + 1)) (image.place k)) % 2 ^ 64 =
      image.place (k + 1) := by
    rw [here, wordSub_of_le less.le]
    simp only [phyStart] at upper
    omega
  cases instr with
  | ret => exact absurd rfl goesOn
  | _ => exact next

theorem exec_reg {instr : BootInstr} {r : Reg} (keeps : instr.dest ≠ some r) :
    (image.exec k h instr).reg r = h.reg r := by
  have kept (value : Nat) {rd : Reg} (different : rd ≠ r) :
      (h.setReg value rd).reg r = h.reg r := by
    cases rd <;> cases r <;> first | rfl | exact absurd rfl different
  have pc (other : Hart) (next : Nat) :
      ({ other with pc := next } : Hart).reg r = other.reg r := by
    cases r <;> rfl
  rw [exec, pc]
  cases instr with
  | la rd _ | li rd _ | add rd _ _ | or rd _ _ | srli rd _ _ | slli rd _ _ =>
      exact kept _ fun same => keeps (congrArg some same)
  | csrw csr rs => cases csr <;> cases r <;> rfl
  | sfenceVma | ret => rfl

theorem exec_csr {instr : BootInstr} {csr : Csr}
    (keeps : instr.csrDest ≠ some csr) :
    (image.exec k h instr).csr csr = h.csr csr := by
  have pc (other : Hart) (next : Nat) :
      ({ other with pc := next } : Hart).csr csr = other.csr csr := by
    cases csr <;> rfl
  have kept (value : Nat) (rd : Reg) :
      (h.setReg value rd).csr csr = h.csr csr := by
    cases rd <;> cases csr <;> rfl
  rw [exec, pc]
  cases instr with
  | la rd _ | li rd _ | add rd _ _ | or rd _ _ | srli rd _ _ | slli rd _ _ =>
      exact kept _ rd
  | csrw written rs =>
      have different : written ≠ csr := fun same => keeps (congrArg some same)
      cases written <;> cases csr <;> first | rfl | exact absurd rfl different
  | sfenceVma | ret => rfl

theorem exec_la (rd : Reg) (symbol : BootSymbol) :
    (image.exec k h (.la rd symbol)).reg rd = image.address h.pc k symbol := by
  cases rd <;> rfl

theorem exec_li (rd : Reg) (value : Nat) :
    (image.exec k h (.li rd value)).reg rd = value := by
  cases rd <;> rfl

theorem exec_add (rd rs1 rs2 : Reg) :
    (image.exec k h (.add rd rs1 rs2)).reg rd =
      (h.reg rs1 + h.reg rs2) % 2 ^ 64 := by
  cases rd <;> rfl

theorem exec_or (rd rs1 rs2 : Reg) :
    (image.exec k h (.or rd rs1 rs2)).reg rd = h.reg rs1 ||| h.reg rs2 := by
  cases rd <;> rfl

theorem exec_srli (rd rs : Reg) (shamt : Nat) :
    (image.exec k h (.srli rd rs shamt)).reg rd = h.reg rs >>> shamt := by
  cases rd <;> rfl

theorem exec_slli (rd rs : Reg) (shamt : Nat) :
    (image.exec k h (.slli rd rs shamt)).reg rd =
      (h.reg rs <<< shamt) % 2 ^ 64 := by
  cases rd <;> rfl

theorem exec_ret (image : Image) (k : Nat) (h : Hart) :
    image.exec k h .ret = { h with pc := h.ra } :=
  rfl

theorem exec_csrw (csr : Csr) (rs : Reg) :
    (image.exec k h (.csrw csr rs)).csr csr = h.reg rs := by
  cases csr <;> rfl

theorem afterLines_line (image : Image) (h : Hart) {k : Nat} {instr : BootInstr}
    (line : relocate.getD k .ret = instr) :
    image.afterLines h (k + 1) = image.exec k (image.afterLines h k) instr := by
  rw [afterLines, line]

/-- A register keeps its value while no line writes it. -/
theorem afterLines_reg (image : Image) (h : Hart) {r : Reg} {j k : Nat}
    (order : j ≤ k)
    (keeps : ∀ line < k, j ≤ line → (relocate.getD line .ret).dest ≠ some r) :
    (image.afterLines h k).reg r = (image.afterLines h j).reg r := by
  induction k, order using Nat.le_induction with
  | base => rfl
  | succ k order induction =>
      rw [afterLines, exec_reg (keeps k (Nat.lt_succ_self k) order)]
      exact induction fun line before => keeps line (Nat.lt_succ_of_lt before)

theorem afterLines_csr (image : Image) (h : Hart) {csr : Csr} {j k : Nat}
    (order : j ≤ k)
    (keeps : ∀ line < k, j ≤ line →
      (relocate.getD line .ret).csrDest ≠ some csr) :
    (image.afterLines h k).csr csr = (image.afterLines h j).csr csr := by
  induction k, order using Nat.le_induction with
  | base => rfl
  | succ k order induction =>
      rw [afterLines, exec_csr (keeps k (Nat.lt_succ_self k) order)]
      exact induction fun line before => keeps line (Nat.lt_succ_of_lt before)

/-- A line that is fetched from where it is. -/
theorem step_line (placed : image.Placed cfg) (line : k ≤ tmpStvec)
    (fetched : h.fetchAddress mem = some (image.place k)) :
    image.step mem h = some (image.exec k h (relocate.getD k .ret)) := by
  have inside : k < relocate.length := Nat.lt_succ_of_le line
  rw [step, fetched]
  dsimp only
  rw [placed.lineAt_place line, Option.bind_some,
    List.getElem?_eq_getElem inside, Option.map_some,
    List.getD_eq_getElem _ _ inside]

theorem steps_succ (image : Image) (mem : Bytes) (count : Nat) (h : Hart) :
    image.steps mem (count + 1) h =
      (image.steps mem count h).bind (image.step mem) := by
  induction count generalizing h with
  | zero =>
      rw [steps, steps, Option.bind_some]
      cases image.step mem h <;> rfl
  | succ count induction =>
      rw [steps, steps, Option.bind_assoc]
      exact congrArg _ (funext induction)

/-- The fault behind the write of `satp`. -/
theorem step_trap (faults : h.fetchAddress mem = none) (aligned : 4 ∣ h.stvec) :
    image.step mem h = some { h with pc := h.stvec } := by
  rw [step, faults]
  dsimp only
  rw [Nat.div_mul_cancel aligned]

/-- The line at `tmp_stvec`, wherever it is fetched from. -/
theorem step_ret (placed : image.Placed cfg)
    (fetched : h.fetchAddress mem = some (image.place tmpStvec)) :
    image.step mem h = some { h with pc := h.ra } := by
  have last : relocate.getD tmpStvec .ret = .ret := rfl
  rw [step_line placed (Nat.le_refl tmpStvec) fetched, last, exec_ret]

/-- Before the write of `satp` the lines are at their physical addresses. -/
theorem steps_physical (placed : image.Placed cfg) (small : cfg.top ≤ 25)
    (start : h.pc = image.place 0) (bare : h.satp = 0) :
    ∀ k < tmpStvec, image.steps mem k h = some (image.afterLines h k) ∧
      (image.afterLines h k).pc = image.place k ∧
      (image.afterLines h k).fetchAddress mem = some (image.place k) := by
  have fetched {k : Nat} (physical : (image.afterLines h k).satp = 0)
      (here : (image.afterLines h k).pc = image.place k) :
      (image.afterLines h k).fetchAddress mem = some (image.place k) := by
    rw [Hart.fetchAddress, physical, if_pos (Nat.zero_shiftRight 60), here]
  have lines : ∀ line < 13, relocate.getD line .ret ≠ .ret ∧
      (relocate.getD line .ret).csrDest ≠ some .satp := by
    decide
  have physical (k : Nat) (line : k < tmpStvec) :
      (image.afterLines h k).satp = 0 :=
    (@afterLines_csr image h .satp 0 k (Nat.zero_le k) fun other before _ =>
      (lines other (before.trans_le (Nat.le_of_lt_succ line))).2).trans bare
  intro k line
  induction k with
  | zero => exact ⟨rfl, start, fetched bare start⟩
  | succ k induction =>
      obtain ⟨ran, here, atLine⟩ := induction (Nat.lt_of_succ_lt line)
      have taken := step_line placed (Nat.le_of_lt (Nat.lt_of_succ_lt line)) atLine
      have next := exec_next placed small (Nat.lt_of_succ_lt line) here
        (lines k (Nat.lt_of_succ_lt_succ line)).1
      refine ⟨?_, next, fetched (physical (k + 1) line) next⟩
      rw [steps_succ, ran, Option.bind_some, taken, afterLines]

/-- The registers behind the write of `satp`. -/
theorem afterLines_registers (placed : image.Placed cfg) (small : cfg.top ≤ 25)
    (start : h.pc = image.place 0) (bare : h.satp = 0) :
    (image.afterLines h 14).reg .ra = (h.ra + pa2vaOffset) % 2 ^ 64 ∧
      (image.afterLines h 14).reg .sp = (h.sp + pa2vaOffset) % 2 ^ 64 ∧
      (image.afterLines h 14).csr .stvec =
        (image.place tmpStvec + pa2vaOffset) % 2 ^ 64 ∧
      (image.afterLines h 14).csr .satp = image.early ||| 2 ^ 63 := by
  have memory := Sections.phySize_le small
  have earlyUpper := placed.early
  have low (k : Nat) (inside : k ≤ tmpStvec) : image.place k < 2 ^ 64 := by
    have upper := (placed.place_bounds inside).2
    simp only [phyStart] at upper
    omega
  have offset : (image.afterLines h 5).reg .a0 = pa2vaOffset := by
    rw [@afterLines_line image h 4 (.li .a0 pa2vaOffset) rfl,
      exec_li]
  refine ⟨?_, ?_, ?_, ?_⟩
  · have before : (image.afterLines h 5).reg .ra = h.ra :=
      afterLines_reg image h (Nat.zero_le 5) (by decide)
    rw [@afterLines_reg image h .ra 6 14 (by decide) (by decide),
      @afterLines_line image h 5 (.add .ra .ra .a0) rfl,
      exec_add, before, offset]
  · have before : (image.afterLines h 6).reg .sp = h.sp :=
      afterLines_reg image h (Nat.zero_le 6) (by decide)
    rw [@afterLines_reg image h .sp 7 14 (by decide) (by decide),
      @afterLines_line image h 6 (.add .sp .sp .a0) rfl,
      exec_add, before,
      @afterLines_reg image h .a0 5 6 (by decide) (by decide), offset]
  · have target : (image.afterLines h 2).reg .t0 = image.place tmpStvec := by
      rw [@afterLines_reg image h .t0 1 2 (by decide) (by decide),
        @afterLines_line image h 0 (.la .t0 .tmpStvec) rfl,
        exec_la]
      exact @address_physical image 0 _ .tmpStvec start (low 0 (by decide))
        (low tmpStvec (Nat.le_refl _))
    have added : (image.afterLines h 2).reg .t1 = pa2vaOffset := by
      rw [@afterLines_line image h 1 (.li .t1 pa2vaOffset) rfl,
        exec_li]
    rw [@afterLines_csr image h .stvec 4 14 (by decide) (by decide),
      @afterLines_line image h 3 (.csrw .stvec .t0) rfl,
      exec_csrw,
      @afterLines_line image h 2 (.add .t0 .t0 .t1) rfl,
      exec_add, target, added]
  · have here := (@steps_physical image cfg (fun _ => 0) h placed small start
      bare 7 (by decide)).2.1
    have table : (image.afterLines h 8).reg .a0 = 4096 * image.early := by
      rw [@afterLines_line image h 7 (.la .a0 .earlyPgtbl) rfl,
        exec_la, address_physical here (low 7 (by decide)) (by
          rw [Image.target]
          simp only [phyStart] at earlyUpper
          omega), Image.target]
    have frame : (image.afterLines h 9).reg .a0 = image.early := by
      rw [@afterLines_line image h 8 (.srli .a0 .a0 12) rfl,
        exec_srli, table, Nat.shiftRight_eq_div_pow]
      omega
    have mode : (image.afterLines h 11).reg .a1 = 2 ^ 63 := by
      have eight : (image.afterLines h 10).reg .a1 = 8 := by
        rw [@afterLines_line image h 9 (.li .a1 8) rfl,
          exec_li]
      rw [@afterLines_line image h 10 (.slli .a1 .a1 60) rfl,
        exec_slli, eight]
      rfl
    rw [@afterLines_line image h 13 (.csrw .satp .a0) rfl,
      exec_csrw, @afterLines_reg image h .a0 12 13 (by decide) (by decide),
      @afterLines_line image h 11 (.or .a0 .a0 .a1) rfl,
      exec_or, @afterLines_reg image h .a0 9 11 (by decide) (by decide), frame,
      mode]

end Lines

end Image

/-- An address of the memory is mapped in the direct map, and only there. -/
theorem hugeAddress_memory {cfg : Config} (small : cfg.top ≤ 25) {pa : Nat}
    (lower : phyStart ≤ pa) (upper : pa < phyStart + cfg.phySize) :
    pa + pa2vaOffset < 2 ^ 64 ∧ cfg.hugeAddress pa = none ∧
      cfg.hugeAddress (pa + pa2vaOffset) = some pa := by
  have memory := Sections.phySize_le small
  have base : vmStart = 2 ^ 64 - 2 ^ 37 := by decide
  have offset : pa2vaOffset + 2 ^ 31 = vmStart := by decide
  have rounded : cfg.phySize ≤ hugePage * cfg.hugePages := by
    simp only [Config.hugePages, hugePage]
    omega
  simp only [phyStart] at lower upper
  have outside : ¬ cfg.InHugePages pa := by
    rintro ⟨low, _⟩
    omega
  have inside : cfg.InHugePages (pa + pa2vaOffset) :=
    ⟨by omega, by omega⟩
  refine ⟨by omega, ?_, ?_⟩
  · rw [Config.hugeAddress, if_neg outside]
  · rw [Config.hugeAddress, if_pos inside, Nat.add_sub_cancel]

/-- `satp` with the early table: its frame, and `8` in `MODE`. -/
theorem satp_early {early : Nat} (small : early < 2 ^ 44) :
    (early ||| 2 ^ 63) >>> 60 ≠ 0 ∧ (early ||| 2 ^ 63) % 2 ^ 44 = early := by
  have sum : early ||| 2 ^ 63 = 2 ^ 63 + early := by
    have disjoint := Nat.two_pow_add_eq_or_of_lt
      (show early < 2 ^ 63 by omega) 1
    rw [Nat.mul_one] at disjoint
    rw [disjoint, Nat.or_comm]
  rw [sum, Nat.shiftRight_eq_div_pow]
  omega

/--
From any place of the image, `relocate` fetches its lines without a fault up to
the write of `satp`, faults at `tmp_stvec` behind it, goes on at its virtual
address without another fault, and returns to the virtual address of its caller
with the virtual address of its stack.
-/
theorem relocate_switches {cfg : Config} {image : Image} {mem : Bytes}
    {h : Hart} (small : cfg.top ≤ 25) (placed : image.Placed cfg)
    (blank : ∀ index < 512, word mem image.early index = 0)
    (start : h.pc = image.place 0) (bare : h.satp = 0)
    (returnLower : phyStart ≤ h.ra)
    (returnUpper : h.ra < phyStart + cfg.phySize)
    (stack : h.sp < phyStart + cfg.phySize) :
    (∀ k < 14, ∃ line,
      image.steps (setupVm cfg image.early mem) k h = some line ∧
      line.fetchAddress (setupVm cfg image.early mem) =
        some (image.place k)) ∧
    ∃ switched trapped last,
      image.steps (setupVm cfg image.early mem) 14 h = some switched ∧
      switched.pc = image.place tmpStvec ∧
      switched.fetchAddress (setupVm cfg image.early mem) = none ∧
      image.steps (setupVm cfg image.early mem) 15 h = some trapped ∧
      trapped.pc = image.place tmpStvec + pa2vaOffset ∧
      trapped.fetchAddress (setupVm cfg image.early mem) =
        some (image.place tmpStvec) ∧
      image.steps (setupVm cfg image.early mem) 16 h = some last ∧
      last.pc = h.ra + pa2vaOffset ∧ last.sp = h.sp + pa2vaOffset ∧
      last.stvec = image.place tmpStvec + pa2vaOffset ∧
      last.fetchAddress (setupVm cfg image.early mem) = some h.ra := by
  have memory := Sections.phySize_le small
  have base : vmStart = 2 ^ 64 - 2 ^ 37 := by decide
  have offset : pa2vaOffset + 2 ^ 31 = vmStart := by decide
  have fourth : 4 ∣ pa2vaOffset := by decide
  have aligned := placed.aligned
  have earlyUpper := placed.early
  obtain ⟨lower, upper⟩ := placed.place_bounds (Nat.le_refl tmpStvec)
  obtain ⟨virtual, unmapped, mapped⟩ := hugeAddress_memory small lower upper
  obtain ⟨returnVirtual, _, returnMapped⟩ :=
    hugeAddress_memory small returnLower returnUpper
  obtain ⟨ra, sp, stvec, satp⟩ :=
    Image.afterLines_registers placed small start bare
  simp only [phyStart] at stack earlyUpper upper
  obtain ⟨enabled, frame⟩ :=
    satp_early (show image.early < 2 ^ 44 by omega)
  rw [Hart.reg_ra, Nat.mod_eq_of_lt returnVirtual] at ra
  rw [Hart.reg_sp, Nat.mod_eq_of_lt (by omega)] at sp
  rw [Hart.csr_stvec, Nat.mod_eq_of_lt virtual] at stvec
  rw [Hart.csr_satp] at satp
  have translates (va : Nat) (below : va < 2 ^ 64) :
      kernelFetch (setupVm cfg image.early mem) image.early va =
        cfg.hugeAddress va :=
    (setupVm_translates small blank below).1
  have low : image.place tmpStvec < 2 ^ 64 := by omega
  generalize setupVm cfg image.early mem = table at *
  have lines := @Image.steps_physical image cfg table h placed small start bare
  obtain ⟨ran, here, fetched⟩ := lines 13 (by decide)
  have written : image.step table (image.afterLines h 13) =
      some (image.afterLines h 14) :=
    Image.step_line placed (show 13 ≤ tmpStvec by decide) fetched
  have pc : (image.afterLines h 14).pc = image.place tmpStvec := by
    rw [@Image.afterLines_line image h 13 (.csrw .satp .a0) rfl]
    exact Image.exec_next placed small (show 13 < tmpStvec by decide) here
      (by decide)
  refine ⟨fun k line => ⟨_, (lines k line).1, (lines k line).2.2⟩, ?_⟩
  clear lines
  generalize image.afterLines h 14 = switched at *
  have fetches (other : Hart) (same : other.satp = switched.satp)
      (below : other.pc < 2 ^ 64) :
      other.fetchAddress table = cfg.hugeAddress other.pc := by
    rw [Hart.fetchAddress, same, satp, if_neg enabled, frame,
      translates _ below]
  have faults : switched.fetchAddress table = none := by
    rw [fetches switched rfl (pc ▸ low), pc, unmapped]
  have modeless : 4 ∣ switched.stvec := by
    rw [stvec]
    exact Nat.dvd_add (Nat.dvd_of_mod_eq_zero aligned) fourth
  have stvecVirtual : switched.stvec < 2 ^ 64 := by
    rw [stvec]
    exact virtual
  have raVirtual : switched.ra < 2 ^ 64 := by
    rw [ra]
    exact returnVirtual
  rw [← stvec] at mapped
  rw [← ra] at returnMapped
  have again : Hart.fetchAddress table { switched with pc := switched.stvec } =
      some (image.place tmpStvec) :=
    (fetches { switched with pc := switched.stvec } rfl stvecVirtual).trans
      mapped
  have reached : image.steps table 14 h = some switched := by
    rw [Image.steps_succ, ran, Option.bind_some, written]
  have trapped : image.steps table 15 h =
      some { switched with pc := switched.stvec } := by
    rw [Image.steps_succ, reached, Option.bind_some,
      Image.step_trap faults modeless]
  refine ⟨switched, { switched with pc := switched.stvec },
    { switched with pc := switched.ra }, reached, pc, faults, trapped, stvec,
    again, ?_, ra, sp, stvec, ?_⟩
  · rw [Image.steps_succ, trapped, Option.bind_some,
      Image.step_ret placed again]
  · exact (fetches { switched with pc := switched.ra } rfl raVirtual).trans
      returnMapped

namespace SmallKernel

/-- `relocate` in the second page, with the early table in the sixth. -/
def image : Image where
  place k := phyStart + 0x1000 + 4 * k
  early := ramBase + 5

def hart : Hart where
  pc := phyStart + 0x1000
  ra := phyStart + 0x10
  sp := phyStart + 0x4000
  t0 := 0
  t1 := 0
  a0 := 0
  a1 := 0
  stvec := 0
  satp := 0

theorem placed : image.Placed config where
  increasing k _ := by
    simp only [image]
    omega
  lower := by decide
  upper := by decide
  aligned := by decide
  early := by decide

end SmallKernel

open SmallKernel in
/-- The small kernel goes on behind the call. -/
theorem relocate_switches_small :
    (∀ k < 14, ∃ line,
      image.steps (setupVm config image.early fun _ => 0) k hart =
        some line ∧
      line.fetchAddress (setupVm config image.early fun _ => 0) =
        some (image.place k)) ∧
    ∃ switched trapped last,
      image.steps (setupVm config image.early fun _ => 0) 14 hart =
        some switched ∧
      switched.pc = image.place tmpStvec ∧
      switched.fetchAddress (setupVm config image.early fun _ => 0) = none ∧
      image.steps (setupVm config image.early fun _ => 0) 15 hart =
        some trapped ∧
      trapped.pc = image.place tmpStvec + pa2vaOffset ∧
      trapped.fetchAddress (setupVm config image.early fun _ => 0) =
        some (image.place tmpStvec) ∧
      image.steps (setupVm config image.early fun _ => 0) 16 hart =
        some last ∧
      last.pc = hart.ra + pa2vaOffset ∧ last.sp = hart.sp + pa2vaOffset ∧
      last.stvec = image.place tmpStvec + pa2vaOffset ∧
      last.fetchAddress (setupVm config image.early fun _ => 0) =
        some hart.ra :=
  relocate_switches (by decide) placed
    (fun _ _ => Bytes.littleEndian_eq_zero fun _ _ _ => rfl) rfl rfl (by decide)
    (by decide) (by decide)

/-! ## The table that takes its place -/

/-- The walk of the processor in the early table, whatever the access. -/
theorem walkAddress_setupVm {cfg : Config} {early : Nat} {mem : Bytes}
    (small : cfg.top ≤ 25)
    (blank : ∀ index < 512, word mem early index = 0) {va : Nat}
    (below : va < 2 ^ 64) :
    walkAddress (setupVm cfg early mem) early va = cfg.hugeAddress va := by
  have base : vmStart = 2 ^ 64 - 2 ^ 37 := by decide
  rw [walkAddress, Config.hugeAddress]
  by_cases canonical : Canonical va
  · rw [if_pos canonical, pageWalk_setupVm small blank canonical below]
    by_cases inside : cfg.InHugePages va
    · obtain ⟨aligned, address⟩ := hugeAddress_leaf small inside
      rw [if_pos inside, if_pos inside]
      dsimp only
      rw [if_pos aligned, address]
    · rw [if_neg inside, if_neg inside]
  · have outside : ¬ cfg.InHugePages va := by
      rintro ⟨lower, _⟩
      simp only [Canonical, not_or, not_lt, not_le] at canonical
      omega
    rw [if_neg canonical, if_neg outside]

/--
`setup_vm_final` moves no address of the kernel and of the memory behind it, and
apart from the devices it maps nothing that the early table has not mapped to
the same place.
-/
theorem setupVmFinal_agrees {cfg : Config} {sections : Sections} {m : Machine}
    {multi : Set Nat} {early : Nat} {mem : Bytes}
    (allocator : Allocator cfg.top multi m) (live : Live m cfg.swapper)
    (blank : Blank cfg m) (linked : sections.Linked cfg)
    (earlyBlank : ∀ index < 512, word mem early index = 0) :
    ∃ after, setupVmFinal cfg sections m = .ok after ∧
      (after.oom = false → ∀ addr < 2 ^ 64,
        (sections.stext ≤ addr → addr < cfg.directEnd →
          ∃ pa, walkAddress after.mem cfg.swapper addr = some pa) ∧
        ∀ pa, walkAddress after.mem cfg.swapper addr = some pa →
          InWindow addr ∨
            walkAddress (setupVm cfg early mem) early addr = some pa) := by
  have small := allocator.small
  have memory := Sections.phySize_le small
  have base : vmStart = 2 ^ 64 - 2 ^ 37 := by decide
  have offset : pa2vaOffset + 2 ^ 31 = vmStart := by decide
  have fourth : pa2vaOffset % 4096 = 0 := by decide
  have first := linked.order.1
  have bounds : ∀ range ∈ sections.kernelMaps cfg, range.sz ≤ 2 ^ 39 := by
    intro range member
    have isUpper := Sections.kernelMaps_upper linked small member
    have lower := isUpper.lower
    have upper := isUpper.upper
    omega
  obtain ⟨after, returns⟩ := mapKernel_returns cfg bounds
    { m with mem := Bytes.fill m.mem (4096 * cfg.swapper) 0 4096 }
  refine ⟨after, returns, fun succeeds addr addrSmall => ?_⟩
  obtain ⟨inv, cleared, unmapped⟩ := cleared_treeInv allocator live blank
  obtain ⟨afterInv, stray⟩ := mapKernel_extends inv cleared returns succeeds
  have direct (lower : sections.stext ≤ addr) (upper : addr < cfg.directEnd) :
      walkAddress after.mem cfg.swapper addr = some (addr - pa2vaOffset) := by
    rw [Config.directEnd] at upper
    have leafPerm : LeafEntry (sections.perm addr) ∧
        sections.perm addr < 2 ^ 10 := by
      rw [Sections.perm]
      split_ifs <;> decide
    rw [afterInv.walkAddress_eq_some,
      setupVmFinal_leaf allocator live blank linked returns succeeds lower
        upper, directEntry, leafEntry_entry,
      entryPpn_entry (by omega) leafPerm.2]
    exact ⟨Or.inr (by omega), leafPerm.1, by omega⟩
  refine ⟨fun lower upper => ⟨_, direct lower upper⟩, fun pa walks => ?_⟩
  obtain ⟨canonical, isLeaf, _⟩ := afterInv.walkAddress_eq_some.1 walks
  rcases stray _ (pageNumber_lt addr) isLeaf.1 with before | written
  · exact absurd before (unmapped _)
  rcases Sections.kernelMaps_region linked small canonical addrSmall written
    with ⟨lower, upper⟩ | window
  · refine Or.inr ?_
    rw [walkAddress_setupVm small earlyBlank addrSmall, ← walks,
      direct lower upper, Config.hugeAddress, if_pos]
    rw [Config.directEnd] at upper
    refine ⟨by omega, ?_⟩
    simp only [Config.hugePages, hugePage]
    omega
  · exact Or.inl window

open SmallKernel in
/-- The kernel of six pages, with the early table in the sixth. -/
theorem setupVmFinal_agrees_small :
    ∃ after, setupVmFinal config sections (Boot.machine config fun _ => 0) =
        .ok after ∧
      ∀ addr < 2 ^ 64,
        (sections.stext ≤ addr → addr < config.directEnd →
          ∃ pa, walkAddress after.mem config.swapper addr = some pa) ∧
        ∀ pa, walkAddress after.mem config.swapper addr = some pa →
          InWindow addr ∨
            walkAddress (setupVm config (ramBase + 5) fun _ => 0) (ramBase + 5)
              addr = some pa := by
  have inv := Boot.machine_inv layout fun _ => 0
  obtain ⟨multi, allocator, _⟩ := inv.allocator
  obtain ⟨after, returns, agrees⟩ := setupVmFinal_agrees allocator
    (inv.tables.live _ Inv.swapper_isTable) (Or.inl (by decide)) linked
    fun _ _ => Bytes.littleEndian_eq_zero fun _ _ _ => rfl
  have succeeds := enough
  rw [returns] at succeeds
  exact ⟨after, returns, agrees (Except.ok.inj succeeds)⟩

end TinyRiscvOs.Vm
