import ArmoniOS.Fat32.Ownership
import ArmoniOS.Fat32.SmallVolume

/-! Volumes without subdirectories. Their well-formedness is a finite check of the root
directory's live entries. -/
namespace Fat32
open LinkedChain

instance decidableLinked {α : Type} [DecidableEq α] (next : α → α) (stop : α → Prop)
    [DecidablePred stop] : (l : List α) → Decidable (Linked next stop l)
  | [] => inferInstanceAs (Decidable True)
  | [a] => inferInstanceAs (Decidable (stop (next a)))
  | a :: b :: l =>
      have := decidableLinked next stop (b :: l)
      inferInstanceAs (Decidable (next a = b ∧ Linked next stop (b :: l)))

variable {g : Geometry} {d : Disk} {scope : Owner → Prop}

instance (c : ℕ) (cs : List ℕ) : Decidable (ChainFrom g d c cs) :=
  decidable_of_iff
    (cs.head? = some c ∧ Linked (fatValue g d) clusterIsEoc cs ∧ ∀ x ∈ cs, g.clusterIsData x)
    ⟨fun h => ⟨h.1, h.2.1, h.2.2⟩, fun h => ⟨h.head, h.linked, h.data⟩⟩

deriving instance Decidable for HasChain, DirEntry.IsSubdir, DirEntry.IsFile

instance : Decidable (Mirror g d) :=
  inferInstanceAs (Decidable (∀ k < g.fatCount, ∀ s < g.sectorsPerFat, _ = _))

/-- The root's live entries hold no directory, and `own` assigns every file its chain, disjoint
from the root's chain `cs` and from the other files'. -/
structure Flat (g : Geometry) (d : Disk) (cs : List ℕ) (own : Slot → List ℕ) : Prop where
  root : ChainFrom g d g.rootCluster cs
  noSubdir : ∀ p ∈ liveSlots g d g.rootCluster, ¬ (entryAt d p).IsSubdir
  file : ∀ p ∈ liveSlots g d g.rootCluster, (entryAt d p).IsFile →
    HasChain g d (some p) (own p) ∧ (entryAt d p).size ≤ (own p).length * g.clusterSize ∧
      (∀ x ∈ own p, x ∉ cs) ∧
      ∀ q ∈ liveSlots g d g.rootCluster, (entryAt d q).IsFile → q ≠ p → ∀ x ∈ own p, x ∉ own q

namespace Flat
variable {cs : List ℕ} {own : Slot → List ℕ} (h : Flat g d cs own)
include h

theorem directory_iff {o : Owner} : Directory g d o ↔ o = none := by
  constructor
  · intro ho
    induction ho with
    | root => rfl
    | sub _ hp he ih =>
      subst ih
      exact absurd he (h.noSubdir _ hp)
  · rintro rfl
    exact .root

theorem fileIn {p : Slot} (hp : FileIn g scope d p) :
    p ∈ liveSlots g d g.rootCluster ∧ (entryAt d p).IsFile := by
  obtain ⟨o, -, ho, hmem, he⟩ := hp
  rw [h.directory_iff] at ho
  subst ho
  exact ⟨hmem, he⟩

theorem chained : Chained g scope d := by
  refine ⟨fun o ho => ?_, fun p hp => ?_, fun o o' l l' ho ho' hne hl hl' x hx hx' => ?_⟩
  · rw [h.directory_iff] at ho
    subst ho
    exact ⟨cs, h.root⟩
  · obtain ⟨hp, he⟩ := h.fileIn hp
    exact ⟨own p, (h.file p hp he).1, (h.file p hp he).2.1⟩
  · -- an owner is the root or one of its files
    have howner : ∀ {o l}, Owns g scope d o → HasChain g d o l → o = none ∧ l = cs ∨
        ∃ p, o = some p ∧ p ∈ liveSlots g d g.rootCluster ∧ (entryAt d p).IsFile ∧ l = own p := by
      rintro o l (ho | ⟨p, rfl, hp⟩) hl
      · rw [h.directory_iff] at ho
        subst ho
        exact Or.inl ⟨rfl, hl.unique (Or.inr h.root)⟩
      · obtain ⟨hp, he⟩ := h.fileIn hp
        exact Or.inr ⟨p, rfl, hp, he, hl.unique (h.file p hp he).1⟩
    rcases howner ho hl with ⟨rfl, rfl⟩ | ⟨p, rfl, hp, he, rfl⟩
    · rcases howner ho' hl' with ⟨rfl, -⟩ | ⟨q, rfl, hq, he', rfl⟩
      · exact hne rfl
      · exact (h.file q hq he').2.2.1 x hx' hx
    · rcases howner ho' hl' with ⟨rfl, rfl⟩ | ⟨q, rfl, hq, he', rfl⟩
      · exact (h.file p hp he).2.2.1 x hx hx'
      · exact (h.file p hp he).2.2.2 q hq he' (fun heq => hne (by rw [heq])) x hx hx'

theorem wellFormed (hm : Mirror g d) : WellFormed g scope d := ⟨h.chained, hm⟩

end Flat
end Fat32
