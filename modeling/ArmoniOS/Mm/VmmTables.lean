import ArmoniOS.Lib.PathTree
import ArmoniOS.Mm.Vmm

/-! The tables below a root as a tree: which tables exist, how a new table or a leaf descriptor
changes it, and what a virtual address then finds. -/
namespace Vmm
open Exec Pmm PathTree List

variable {x m : BitVec 64}

section Descriptors

theorem and_self_bit (i : ℕ) (hm : m.getLsbD i = true) (hx : x.getLsbD i = true) : x &&& m ≠ 0 := by
  intro h
  have hbit := congrArg (fun y : BitVec 64 => y.getLsbD i) h
  simp [hm, hx] at hbit

theorem masked_or {y : BitVec 64} (h : y &&& m = 0) : (x &&& m ||| y) &&& m = x &&& m := by
  apply BitVec.eq_of_getLsbD_eq
  intro i hi
  have hbit := congrArg (fun z : BitVec 64 => z.getLsbD i) h
  grind

theorem and_addrMask {a : ℕ} (haligned : pageSize ∣ a) (hlt : a < 2 ^ 48) :
    (BitVec.ofNat 64 a &&& descAddrMask).toNat = a := by
  obtain ⟨k, rfl⟩ := haligned
  have hk : k < 2 ^ 36 := by
    simp only [pageSize] at hlt
    omega
  have hshift : pageSize * k = k <<< 12 := by
    rw [Nat.shiftLeft_eq, pageSize, Nat.mul_comm]
  have hmask : descAddrMask.toNat = (2 ^ 36 - 1) <<< 12 := by decide
  rw [BitVec.toNat_and, BitVec.toNat_ofNat, Nat.mod_eq_of_lt (by omega), hshift, hmask]
  apply Nat.eq_of_testBit_eq
  intro i
  simp only [Nat.testBit_and, Nat.testBit_shiftLeft, Nat.testBit_two_pow_sub_one]
  by_cases hi : i < 48
  · grind
  · have hbit : k.testBit (i - 12) = false := by
      apply Nat.testBit_lt_two_pow
      exact lt_of_lt_of_le hk (Nat.pow_le_pow_right (by decide) (by omega))
    simp [hbit]

theorem tableDescriptor_spec {c : ℕ} (haligned : pageSize ∣ c) (hlt : c < 2 ^ 48) :
    let e := (BitVec.ofNat 64 c &&& descAddrMask) ||| descValid ||| descTable
    e &&& descValid ≠ 0 ∧ e &&& descTable ≠ 0 ∧ addrOf e = c := by
  intro e
  refine ⟨and_self_bit 0 (by decide) ?_, and_self_bit 1 (by decide) ?_, ?_⟩
  · simp [e, descValid]
  · simp [e, descTable]
  · have hmasked : e &&& descAddrMask = BitVec.ofNat 64 c &&& descAddrMask := by
      simp only [e, BitVec.or_assoc]
      exact masked_or (by decide)
    rw [addrOf, hmasked, and_addrMask haligned hlt]

def attributeBits (flags : BitVec 64) : BitVec 64 :=
  let d := descValid ||| descPage ||| descAf
  let d :=
    if flags &&& flagDevice ≠ 0 then d ||| (descAttrDevice ||| descUxn ||| descPxn)
    else d ||| (descAttrNormal ||| descShInner)
  let d := if flags &&& flagWrite = 0 then d ||| descApRo else d
  let d := if flags &&& flagUser ≠ 0 then d ||| descApUser else d
  if flags &&& flagExec = 0 then d ||| (descUxn ||| descPxn)
  else if flags &&& flagUser ≠ 0 then d ||| descPxn
  else d ||| descUxn

theorem attributeBits_spec (flags : BitVec 64) :
    attributeBits flags &&& descAddrMask = 0 ∧ attributeBits flags &&& descValid ≠ 0 ∧
      attributeBits flags &&& descPage ≠ 0 := by
  unfold attributeBits
  split_ifs <;> decide

theorem pageDescriptor_eq (paddr : ℕ) (flags : BitVec 64) : pageDescriptor paddr flags =
      (BitVec.ofNat 64 paddr &&& descAddrMask) ||| attributeBits flags := by
  unfold pageDescriptor attributeBits
  split_ifs <;> simp only [BitVec.or_assoc]

theorem or_and_ne_zero {y : BitVec 64} (h : y &&& m ≠ 0) : (x ||| y) &&& m ≠ 0 := by
  intro h0
  apply h
  apply BitVec.eq_of_getLsbD_eq
  intro i hi
  have hbit := congrArg (fun z : BitVec 64 => z.getLsbD i) h0
  grind

theorem pageDescriptor_spec (paddr : ℕ) (flags : BitVec 64) :
    pageDescriptor paddr flags &&& descValid ≠ 0 ∧ pageDescriptor paddr flags &&& descPage ≠ 0 ∧
      pageDescriptor paddr flags &&& descAddrMask = BitVec.ofNat 64 paddr &&& descAddrMask := by
  obtain ⟨hmask, hvalid, hpage⟩ := attributeBits_spec flags
  rw [pageDescriptor_eq]
  exact ⟨or_and_ne_zero hvalid, or_and_ne_zero hpage, masked_or hmask⟩

end Descriptors

def child (mem : ℕ → Fin 512 → BitVec 64) (t : ℕ) (i : Fin 512) : Option ℕ :=
  if mem t i &&& descValid ≠ 0 ∧ mem t i &&& descTable ≠ 0 then some (addrOf (mem t i)) else none

def tablePath (vaddr : ℕ) : List (Fin 512) :=
  [tableIndex vaddr 0, tableIndex vaddr 1, tableIndex vaddr 2]

/-- The leaf descriptor of an address, `0` when a table is missing. -/
def entryAt (mem : ℕ → Fin 512 → BitVec 64) (pgd vaddr : ℕ) : BitVec 64 :=
  match follow (child mem) pgd (tablePath vaddr) with
  | some t => mem t (tableIndex vaddr 3)
  | none => 0

/-- The tables below `pgd` are exactly `T`: a tree of four levels without sharing, in pages that
the allocator manages and that are in use. -/
structure Owns (s : Memory) (pgd : ℕ) (T : Finset ℕ) : Prop where
  valid : Valid s.pmm
  low : ∀ a, s.pmm.Manages a → a < 2 ^ 48
  mem_iff : ∀ t, t ∈ T ↔ ∃ p, p.length ≤ 3 ∧ follow (child s.mem) pgd p = some t
  unshared : Unshared (child s.mem) 3 pgd
  entries : ∀ t ∈ T, ∀ i, s.mem t i &&& descValid ≠ 0 → s.mem t i &&& descTable ≠ 0
  pages : ∀ t ∈ T, s.pmm.Manages t ∧ t ≠ 0 ∧ t ∉ s.pmm.freeAddrs

/-- What a call on the tables of `pgd` may do: more tables, in pages that were free, and no write
outside the tables. -/
structure Extends (s s' : Memory) (pgd : ℕ) (T T' : Finset ℕ) : Prop where
  owns : Owns s' pgd T'
  subset : T ⊆ T'
  fresh : ∀ a ∈ T', a ∉ T → a ∈ s.pmm.freeAddrs
  free : s'.pmm.freeAddrs = s.pmm.freeAddrs \ T'
  frame : ∀ a, a ∉ T' → s'.mem a = s.mem a
  paths : ∀ p t, p.length ≤ 3 → follow (child s.mem) pgd p = some t →
    follow (child s'.mem) pgd p = some t
  same : s.pmm.SameMemory s'.pmm

section Walking
variable {mem : ℕ → Fin 512 → BitVec 64} {s : Memory} {pgd vaddr : ℕ} {T : Finset ℕ}

theorem walk_eq (levels : List ℕ) (t : ℕ) : walk mem vaddr levels t =
    (follow (child mem) t (levels.map (tableIndex vaddr))).getD 0 := by
  induction levels generalizing t with
  | nil => rfl
  | cons level levels ih =>
    simp only [walk, map_cons, follow_cons]
    by_cases hentry : mem t (tableIndex vaddr level) &&& descValid = 0 ∨
        mem t (tableIndex vaddr level) &&& descTable = 0
    · have hchild : child mem t (tableIndex vaddr level) = none := if_neg (by tauto)
      rw [if_pos hentry, hchild]
      rfl
    · have hchild : child mem t (tableIndex vaddr level) =
          some (addrOf (mem t (tableIndex vaddr level))) := if_pos (by tauto)
      rw [if_neg hentry, hchild, ih]
      rfl

section
variable (h : Owns s pgd T)
include h

theorem Owns.root_mem : pgd ∈ T := (h.mem_iff pgd).2 ⟨[], by simp, rfl⟩

theorem Owns.leafTable_eq :
    leafTable s.mem pgd vaddr = (follow (child s.mem) pgd (tablePath vaddr)).getD 0 := by
  have hpgd : pgd ≠ 0 := (h.pages pgd h.root_mem).2.1
  rw [leafTable, if_neg hpgd, walk_eq]
  rfl

theorem Owns.mem_of_follow {p : List (Fin 512)} {t : ℕ} (hp : p.length ≤ 3)
    (ht : follow (child s.mem) pgd p = some t) : t ∈ T :=
  (h.mem_iff t).2 ⟨p, hp, ht⟩

theorem Owns.vmmLeafEntry_eq : vmmLeafEntry s pgd vaddr = entryAt s.mem pgd vaddr := by
  unfold vmmLeafEntry entryAt
  rw [h.leafTable_eq]
  cases ht : follow (child s.mem) pgd (tablePath vaddr) with
  | none => rfl
  | some t =>
    have hne : t ≠ 0 := (h.pages t (h.mem_of_follow (by simp [tablePath]) ht)).2.1
    simp [hne]

end

end Walking

section Extending
variable {s s' s'' : Memory} {pgd : ℕ} {T T' T'' : Finset ℕ}

theorem Extends.refl (h : Owns s pgd T) : Extends s s pgd T T where
  owns := h
  subset := Finset.Subset.refl T
  fresh a ha hn := absurd ha hn
  free := by
    rw [eq_comm, Finset.sdiff_eq_self_iff_disjoint, Finset.disjoint_right]
    exact fun a ha => (h.pages a ha).2.2
  frame _ _ := rfl
  paths _ _ _ ht := ht
  same := ⟨rfl, rfl⟩

theorem Extends.trans (h : Extends s s' pgd T T') (h' : Extends s' s'' pgd T' T'') :
    Extends s s'' pgd T T'' where
  owns := h'.owns
  subset := h.subset.trans h'.subset
  fresh a ha hn := by
    by_cases ha' : a ∈ T'
    · exact h.fresh a ha' hn
    · have hfree := h'.fresh a ha ha'
      rw [h.free] at hfree
      exact (Finset.mem_sdiff.1 hfree).1
  free := by
    rw [h'.free, h.free, Finset.sdiff_sdiff_left', ← Finset.sdiff_union_distrib,
      Finset.union_eq_right.2 h'.subset]
  frame a ha := (h'.frame a ha).trans (h.frame a fun ha' => ha (h'.subset ha'))
  paths p t hp ht := h'.paths p t hp (h.paths p t hp ht)
  same := ⟨h'.same.1.trans h.same.1, h'.same.2.trans h.same.2⟩

end Extending

variable {j : Fin 512}

section Writing
variable {s : Memory} {pgd t : ℕ} {T : Finset ℕ} {p : List (Fin 512)} {i : Fin 512}
  {e : BitVec 64}

theorem write_mem_self : (s.write t i e).mem t i = e := by
  simp [Memory.write]

theorem write_mem_of_ne {u : ℕ} (h : u ≠ t ∨ j ≠ i) : (s.write t i e).mem u j = s.mem u j := by
  unfold Memory.write
  by_cases hu : u = t
  · subst hu
    have hj : j ≠ i := h.resolve_left fun hne => hne rfl
    simp [hj]
  · simp [hu]

theorem child_congr {mem mem' : ℕ → Fin 512 → BitVec 64} {u : ℕ} (h : mem' u j = mem u j) :
    child mem' u j = child mem u j := by
  simp only [child, h]

theorem Owns.follow_write (h : Owns s pgd T) (hp : follow (child s.mem) pgd p = some t)
    (hlen : p.length = 3) {q : List (Fin 512)} (hq : q.length ≤ 3) :
    follow (child (s.write t i e).mem) pgd q = follow (child s.mem) pgd q := by
  apply follow_congr
  rintro r j rest rfl u hu
  simp only [length_append, length_cons] at hq
  have hne : u ≠ t := by
    rintro rfl
    have heq := h.unshared r p u (by omega) hlen.le hu hp
    rw [heq] at hq
    omega
  exact child_congr (write_mem_of_ne (.inl hne))

theorem Owns.congr (h : Owns s pgd T) (hvalid : Valid s'.pmm)
    (hlow : ∀ a, s'.pmm.Manages a → a < 2 ^ 48)
    (hfollow : ∀ q : List (Fin 512), q.length ≤ 3 →
      follow (child s'.mem) pgd q = follow (child s.mem) pgd q)
    (hentries : ∀ t ∈ T, ∀ i, s'.mem t i &&& descValid ≠ 0 → s'.mem t i &&& descTable ≠ 0)
    (hpages : ∀ t ∈ T, s'.pmm.Manages t ∧ t ≠ 0 ∧ t ∉ s'.pmm.freeAddrs) : Owns s' pgd T := by
  refine ⟨hvalid, hlow, fun t => ?_, ?_, hentries, hpages⟩
  · rw [h.mem_iff]
    exact exists_congr fun p => and_congr_right fun hp => by rw [hfollow p hp]
  · intro p q t hp hq hpt hqt
    rw [hfollow p hp] at hpt
    rw [hfollow q hq] at hqt
    exact h.unshared p q t hp hq hpt hqt

theorem Owns.write_leaf (h : Owns s pgd T) (hp : follow (child s.mem) pgd p = some t)
    (hlen : p.length = 3) (he : e &&& descValid ≠ 0 → e &&& descTable ≠ 0) :
    Extends s (s.write t i e) pgd T T := by
  have ht : t ∈ T := h.mem_of_follow hlen.le hp
  have hfollow (q : List (Fin 512)) (hq : q.length ≤ 3) :=
    h.follow_write (i := i) (e := e) hp hlen hq
  have howns : Owns (s.write t i e) pgd T := by
    refine h.congr h.valid h.low hfollow (fun u hu j => ?_) h.pages
    by_cases hj : u = t ∧ j = i
    · obtain ⟨rfl, rfl⟩ := hj
      rw [write_mem_self]
      exact he
    · rw [write_mem_of_ne (by tauto)]
      exact h.entries u hu j
  refine ⟨howns, Finset.Subset.refl T, fun a ha hn => absurd ha hn, (Extends.refl h).free, ?_, ?_,
    ⟨rfl, rfl⟩⟩
  · intro a ha
    funext j
    exact write_mem_of_ne (.inl fun heq => ha (heq ▸ ht))
  · intro q u hq hu
    rw [hfollow q hq, hu]

def pageOf (vaddr : ℕ) : ℕ := vaddr / 4096 % 2 ^ 36

theorem pageOf_eq_iff {v w : ℕ} : pageOf v = pageOf w ↔
    tablePath v = tablePath w ∧ tableIndex v 3 = tableIndex w 3 := by
  simp only [pageOf, tablePath, tableIndex, cons.injEq, and_true, Fin.ext_iff, Fin.val_ofNat,
    Nat.reduceMul, Nat.reduceSub, Nat.reducePow]
  omega

theorem Owns.entryAt_write (h : Owns s pgd T) {v : ℕ}
    (hp : follow (child s.mem) pgd (tablePath v) = some t) (w : ℕ) :
    entryAt (s.write t (tableIndex v 3) e).mem pgd w =
      if pageOf w = pageOf v then e else entryAt s.mem pgd w := by
  have hfollow := h.follow_write (i := tableIndex v 3) (e := e) hp rfl
    (q := tablePath w) (by simp [tablePath])
  by_cases hpage : pageOf w = pageOf v
  · obtain ⟨hpath, hindex⟩ := pageOf_eq_iff.1 hpage
    rw [if_pos hpage, entryAt, hfollow, hpath, hp, hindex]
    exact write_mem_self
  · rw [if_neg hpage, entryAt, hfollow, entryAt]
    cases hw : follow (child s.mem) pgd (tablePath w) with
    | none => rfl
    | some u =>
      apply write_mem_of_ne
      by_contra hcon
      simp only [not_or, not_not] at hcon
      obtain ⟨rfl, hindex⟩ := hcon
      have hpath := h.unshared _ _ u (by simp [tablePath]) (by simp [tablePath]) hw hp
      exact hpage (pageOf_eq_iff.2 ⟨hpath, hindex⟩)

end Writing

variable {pmm : State}

section Growing
variable {s : Memory} {pgd t c : ℕ} {T : Finset ℕ} {p : List (Fin 512)} {i : Fin 512}

/-- The memory after a new table `c` is put under `t` at `i`. -/
def Memory.attach (s : Memory) (pmm : State) (t : ℕ) (i : Fin 512) (c : ℕ) : Memory :=
  Memory.write ⟨Function.update s.mem c fun _ => 0, pmm⟩ t i
    ((BitVec.ofNat 64 c &&& descAddrMask) ||| descValid ||| descTable)

theorem attach_pmm : (s.attach pmm t i c).pmm = pmm := rfl

theorem attach_mem_of_ne {u : ℕ} (hc : u ≠ c) (h : u ≠ t ∨ j ≠ i) :
    (s.attach pmm t i c).mem u j = s.mem u j := by
  rw [Memory.attach, write_mem_of_ne h]
  simp [hc]

theorem attach_mem_new (hc : c ≠ t) : (s.attach pmm t i c).mem c j = 0 := by
  rw [Memory.attach, write_mem_of_ne (.inl hc)]
  simp

theorem Owns.attach (h : Owns s pgd T) (hp : follow (child s.mem) pgd p = some t)
    (hlen : p.length < 3) (habsent : s.mem t i &&& descValid = 0) (hc : c ∈ s.pmm.freeAddrs)
    (hvalid : Valid pmm) (hsame : s.pmm.SameMemory pmm)
    (hfree : pmm.freeAddrs = s.pmm.freeAddrs.erase c) :
    Extends s (s.attach pmm t i c) pgd T (insert c T) ∧
      follow (child (s.attach pmm t i c).mem) pgd (p ++ [i]) = some c ∧
      ∀ v, entryAt (s.attach pmm t i c).mem pgd v = entryAt s.mem pgd v := by
  have hcT : c ∉ T := fun hmem => (h.pages c hmem).2.2 hc
  have ht : t ∈ T := h.mem_of_follow hlen.le hp
  have hct : c ≠ t := fun heq => hcT (heq ▸ ht)
  have hmanages := State.manages_of_mem hc
  obtain ⟨hset, htable, haddr⟩ :=
    tableDescriptor_spec (h.valid.aligned_of_manages hmanages) (h.low c hmanages)
  have hattach : Attach (child s.mem) (child (s.attach pmm t i c).mem) t i c := by
    refine ⟨if_neg fun hc => hc.1 habsent, ?_, fun j => ?_, fun u j hu hj => ?_⟩
    · have hentry : (s.attach pmm t i c).mem t i =
          (BitVec.ofNat 64 c &&& descAddrMask) ||| descValid ||| descTable := write_mem_self
      rw [child, hentry, if_pos ⟨hset, htable⟩, haddr]
    · rw [child, attach_mem_new hct]
      simp
    · exact child_congr (attach_mem_of_ne hu hj)
  have hunreached (r : List (Fin 512)) (hr : r.length ≤ 3) :
      follow (child s.mem) pgd r ≠ some c := fun hfollow => hcT (h.mem_of_follow hr hfollow)
  have hiff {q : List (Fin 512)} (hq : q.length ≤ 3) (u : ℕ) :=
    hattach.follow_iff h.unshared hp hlen hunreached hq u
  have hpi : (p ++ [i]).length ≤ 3 := by
    simp only [length_append, length_singleton]
    omega
  have howns : Owns (s.attach pmm t i c) pgd (insert c T) := by
    refine ⟨hvalid, fun a ha => h.low a (hsame.manages.1 ha), fun u => ?_,
      h.unshared.attach hattach hp hlen hunreached, ?_, ?_⟩
    · rw [Finset.mem_insert, h.mem_iff]
      constructor
      · rintro (rfl | ⟨q, hq, hu⟩)
        · exact ⟨p ++ [i], hpi, (hiff hpi u).2 (.inl ⟨rfl, rfl⟩)⟩
        · exact ⟨q, hq, (hiff hq u).2 (.inr hu)⟩
      · rintro ⟨q, hq, hu⟩
        rcases (hiff hq u).1 hu with ⟨-, rfl⟩ | hu
        · exact .inl rfl
        · exact .inr ⟨q, hq, hu⟩
    · intro u hu j
      by_cases huc : u = c
      · rw [huc, attach_mem_new hct]
        simp
      · by_cases hj : u = t ∧ j = i
        · obtain ⟨rfl, rfl⟩ := hj
          have hentry := tableDescriptor_spec (h.valid.aligned_of_manages hmanages)
            (h.low c hmanages)
          rw [Memory.attach, write_mem_self]
          exact fun _ => hentry.2.1
        · rw [attach_mem_of_ne huc (by tauto)]
          exact h.entries u (Finset.mem_of_mem_insert_of_ne hu huc) j
    · intro u hu
      rw [attach_pmm, hsame.manages, hfree]
      rcases Finset.mem_insert.1 hu with rfl | hu
      · exact ⟨hmanages, h.valid.ne_zero_of_mem hc, by simp⟩
      · obtain ⟨hm, hne, hnot⟩ := h.pages u hu
        exact ⟨hm, hne, fun hmem => hnot (Finset.mem_of_mem_erase hmem)⟩
  refine ⟨⟨howns, Finset.subset_insert _ _, ?_, ?_, ?_, ?_, hsame⟩, ?_, fun v => ?_⟩
  · intro a ha hn
    rcases Finset.mem_insert.1 ha with rfl | ha
    · exact hc
    · exact absurd ha hn
  · have hdisj := (Extends.refl h).free
    rw [attach_pmm, hfree, Finset.sdiff_insert, ← hdisj]
  · intro a ha
    rw [Finset.mem_insert, not_or] at ha
    funext j
    exact attach_mem_of_ne ha.1 (.inl fun heq => ha.2 (heq ▸ ht))
  · intro q u hq hu
    exact (hiff hq u).2 (.inr hu)
  · exact (hiff hpi c).2 (.inl ⟨rfl, rfl⟩)
  · have hv : (tablePath v).length = 3 := rfl
    unfold entryAt
    cases hold : follow (child s.mem) pgd (tablePath v) with
    | some u =>
      have huT : u ∈ T := h.mem_of_follow hv.le hold
      have hut : u ≠ t := by
        rintro rfl
        have heq := h.unshared _ _ u hv.le hlen.le hold hp
        rw [← heq, hv] at hlen
        omega
      rw [(hiff hv.le u).2 (.inr hold)]
      exact attach_mem_of_ne (fun heq => hcT (heq ▸ huT)) (.inl hut)
    | none =>
      cases hnew : follow (child (s.attach pmm t i c).mem) pgd (tablePath v) with
      | none => rfl
      | some u =>
        -- the only new leaf table is the empty one
        rcases (hiff hv.le u).1 hnew with ⟨-, rfl⟩ | hu
        · exact attach_mem_new hct
        · simp [hold] at hu

end Growing

end Vmm
