import Mathlib.Data.Finset.Max
import Mathlib.Data.Finset.Image
import Resonance.Foundation.StorageMap
import Resonance.Foundation.ParentTree

/-!
Headers and the tree of headers a client has stored.

A header is filed under its hash, every header but the root has a stored
parent one number below it, and the default hash, which the client's `info`
uses for "no block", is no header's hash. These are fields of the tree: the
walks over it never have to check them. The root keeps whatever number it has;
only a full node's root is genesis.
-/
namespace Resonance
open ParentTree

abbrev ConsensusEngineId := Vector UInt8 4

/-- The engine id `pow_`. -/
def POW_ENGINE_ID : ConsensusEngineId := #v[112, 111, 119, 95]

inductive DigestItem
  | preRuntime (id : ConsensusEngineId) (data : List UInt8)
  | consensus (id : ConsensusEngineId) (data : List UInt8)
  | seal (id : ConsensusEngineId) (data : List UInt8)
  | other (data : List UInt8)
  | runtimeEnvironmentUpdated
deriving DecidableEq

structure Header (H : Type) where
  parentHash : H
  number : ℕ
  stateRoot : H
  extrinsicsRoot : H
  /-- The logs of the digest, first to last. -/
  digest : List DigestItem
deriving DecidableEq

/-- The hash of a header's encoding. -/
class HeaderHash (H : Type) where
  hash : Header H → H

def Header.hash {H : Type} [HeaderHash H] (x : Header H) : H := HeaderHash.hash x

structure HeaderTree (H : Type) [DecidableEq H] [Inhabited H] [HeaderHash H] where
  headers : StorageMap H (Header H)
  root : H
  root_stored : (headers.lookup root).isSome
  hash_eq : ∀ {h : H} {x : Header H}, headers.lookup h = some x → x.hash = h
  parent_stored : ∀ {h : H} {x : Header H}, headers.lookup h = some x → h ≠ root →
    ∃ p, headers.lookup x.parentHash = some p ∧ x.number = p.number + 1
  default_not_stored : headers.lookup default = none

namespace HeaderTree
variable {H : Type} [DecidableEq H] [Inhabited H] [HeaderHash H]

/-- `client.header(hash)`. -/
def header (t : HeaderTree H) (h : H) : Option (Header H) := t.headers.lookup h

def number (t : HeaderTree H) (h : H) : ℕ :=
  match t.header h with
  | some x => x.number
  | none => 0

def parent (t : HeaderTree H) (h : H) : Option H :=
  if h = t.root then none else (t.header h).map Header.parentHash

/-- The tree of one header. -/
def genesis (x : Header H) (hx : x.hash ≠ default) : HeaderTree H :=
  have only {h : H} {y : Header H}
      (hy : ((∅ : StorageMap H (Header H)).insert x.hash x).lookup h = some y) :
      h = x.hash ∧ y = x := by
    by_cases hh : h = x.hash
    · subst hh
      rw [AList.lookup_insert] at hy
      exact ⟨rfl, (Option.some.inj hy).symm⟩
    · rw [AList.lookup_insert_ne hh, AList.lookup_empty] at hy
      cases hy
  { headers := (∅ : StorageMap H (Header H)).insert x.hash x
    root := x.hash
    root_stored := by
      rw [AList.lookup_insert]
      rfl
    hash_eq := by
      intro h y hy
      obtain ⟨rfl, rfl⟩ := only hy
      rfl
    parent_stored := by
      intro h y hy hr
      exact absurd (only hy).1 hr
    default_not_stored := by
      rw [AList.lookup_insert_ne hx.symm, AList.lookup_empty] }

theorem mem_keys_iff {t : HeaderTree H} {h : H} :
    h ∈ t.headers.keys ↔ ∃ x, t.header h = some x := by
  rw [← AList.mem_keys, ← AList.lookup_isSome, Option.isSome_iff_exists]
  rfl

theorem number_eq {t : HeaderTree H} {h : H} {x : Header H} (hx : t.header h = some x) :
    t.number h = x.number := by
  simp [number, hx]

theorem parent_eq {t : HeaderTree H} {h : H} {x : Header H} (hx : t.header h = some x)
    (hr : h ≠ t.root) : t.parent h = some x.parentHash := by
  simp [parent, hr, hx]

theorem parent_inv {t : HeaderTree H} {h p : H} (hp : t.parent h = some p) :
    h ≠ t.root ∧ ∃ x q, t.header h = some x ∧ x.parentHash = p ∧ t.header p = some q ∧
      x.number = q.number + 1 := by
  simp only [parent] at hp
  split at hp
  · cases hp
  · rename_i hr
    obtain ⟨x, hx, rfl⟩ := Option.map_eq_some_iff.mp hp
    obtain ⟨q, hq, hn⟩ := t.parent_stored hx hr
    exact ⟨hr, x, q, hx, rfl, hq, hn⟩

/-- The parent links of the tree. -/
def links (t : HeaderTree H) : Links H where
  parent := t.parent
  number := t.number
  number_parent := by
    intro h p hp
    obtain ⟨-, x, q, hx, -, hq, hn⟩ := parent_inv hp
    rw [number_eq hx, number_eq hq, hn]

@[simp] theorem links_parent (t : HeaderTree H) : t.links.parent = t.parent := rfl
@[simp] theorem links_number (t : HeaderTree H) : t.links.number = t.number := rfl

/-- Every stored header is over the root. -/
theorem root_ancestor (t : HeaderTree H) {h : H} {x : Header H} (hx : t.header h = some x) :
    t.links.Ancestor t.root h := by
  induction hn : x.number using Nat.strong_induction_on generalizing h x with
  | _ n ih =>
      by_cases hr : h = t.root
      · subst hr
        exact .refl
      · obtain ⟨p, hp, hpn⟩ := t.parent_stored hx hr
        exact .child (parent_eq hx hr) (ih p.number (by omega) hp rfl)

/-- Going down from a stored header one only meets stored headers. -/
theorem ancestor_stored (t : HeaderTree H) {a h : H} {x : Header H}
    (ha : t.links.Ancestor a h) (hx : t.header h = some x) : ∃ y, t.header a = some y := by
  induction ha generalizing x with
  | refl => exact ⟨x, hx⟩
  | child hp _ ih =>
      obtain ⟨-, -, q, -, -, hq, -⟩ := parent_inv hp
      exact ih hq

theorem exists_meet (t : HeaderTree H) {h k : H} {x y : Header H}
    (hx : t.header h = some x) (hy : t.header k = some y) : ∃ c, t.links.Meet c h k :=
  Links.Meet.exists_of_root (t.root_ancestor hx) (t.root_ancestor hy)

/-- A stored header that is nobody's parent. -/
def IsLeaf (t : HeaderTree H) (h : H) : Prop :=
  (∃ x, t.header h = some x) ∧ ∀ k, t.parent k ≠ some h

/-- The leaves, computed. -/
def leafList (t : HeaderTree H) : List H :=
  t.headers.keys.filter fun h => t.headers.keys.all fun k => decide (t.parent k ≠ some h)

theorem mem_leafList (t : HeaderTree H) (h : H) : h ∈ t.leafList ↔ t.IsLeaf h := by
  simp only [leafList, IsLeaf, List.mem_filter, List.all_eq_true, decide_eq_true_eq, mem_keys_iff]
  refine and_congr_right fun _ => ?_
  constructor
  · intro no_child k hk
    obtain ⟨-, x, -, hx, -⟩ := parent_inv hk
    exact no_child k ⟨x, hx⟩ hk
  · intro no_child k _
    exact no_child k

/-- A header of the largest number is a leaf. -/
theorem exists_leaf (t : HeaderTree H) : ∃ h, t.IsLeaf h := by
  obtain ⟨r, hr⟩ := Option.isSome_iff_exists.mp t.root_stored
  have stored_iff (h : H) : h ∈ t.headers.keys.toFinset ↔ ∃ x, t.header h = some x := by
    rw [List.mem_toFinset, mem_keys_iff]
  obtain ⟨h, hh, top⟩ := t.headers.keys.toFinset.exists_max_image t.number
    ⟨t.root, (stored_iff _).mpr ⟨r, hr⟩⟩
  refine ⟨h, (stored_iff h).mp hh, ?_⟩
  intro k hk
  obtain ⟨-, x, -, hx, -⟩ := parent_inv hk
  have above := top k ((stored_iff k).mpr ⟨x, hx⟩)
  have next : t.number k = t.number h + 1 := t.links.number_parent hk
  omega

/-- A header that can be stored next: unknown so far, on a stored parent. -/
structure Child (t : HeaderTree H) where
  header : Header H
  fresh : t.header header.hash = none
  hash_ne_default : header.hash ≠ default
  parent_stored : ∃ p, t.header header.parentHash = some p ∧ header.number = p.number + 1

/-- The tree with one more header. -/
def extend (t : HeaderTree H) (n : t.Child) : HeaderTree H where
  headers := t.headers.insert n.header.hash n.header
  root := t.root
  root_stored := by
    by_cases h : t.root = n.header.hash
    · rw [h, AList.lookup_insert]
      rfl
    · rw [AList.lookup_insert_ne h]
      exact t.root_stored
  hash_eq := by
    intro h x hx
    by_cases hn : h = n.header.hash
    · subst hn
      rw [AList.lookup_insert] at hx
      cases hx
      rfl
    · rw [AList.lookup_insert_ne hn] at hx
      exact t.hash_eq hx
  parent_stored := by
    have keep {k : H} {p : Header H} (hp : t.header k = some p) :
        (t.headers.insert n.header.hash n.header).lookup k = some p := by
      rw [AList.lookup_insert_ne]
      · exact hp
      · rintro rfl
        rw [n.fresh] at hp
        cases hp
    intro h x hx hr
    by_cases hn : h = n.header.hash
    · subst hn
      rw [AList.lookup_insert] at hx
      cases hx
      obtain ⟨p, hp, hpn⟩ := n.parent_stored
      exact ⟨p, keep hp, hpn⟩
    · rw [AList.lookup_insert_ne hn] at hx
      obtain ⟨p, hp, hpn⟩ := t.parent_stored hx hr
      exact ⟨p, keep hp, hpn⟩
  default_not_stored := by
    rw [AList.lookup_insert_ne n.hash_ne_default.symm]
    exact t.default_not_stored

/-- Store a header if it can be stored. -/
def store (t : HeaderTree H) (x : Header H) : HeaderTree H :=
  if h : t.header x.hash = none ∧ x.hash ≠ default ∧
      ∃ p ∈ t.header x.parentHash, x.number = p.number + 1 then
    t.extend ⟨x, h.1, h.2.1, h.2.2⟩
  else t

theorem header_extend_self (t : HeaderTree H) (n : t.Child) :
    (t.extend n).header n.header.hash = some n.header :=
  AList.lookup_insert _

theorem header_extend_of_some {t : HeaderTree H} {n : t.Child} {h : H} {x : Header H}
    (hx : t.header h = some x) : (t.extend n).header h = some x := by
  refine (AList.lookup_insert_ne ?_).trans hx
  rintro rfl
  rw [n.fresh] at hx
  cases hx

theorem header_extend_cases {t : HeaderTree H} {n : t.Child} {h : H} {x : Header H}
    (hx : (t.extend n).header h = some x) :
    (h = n.header.hash ∧ x = n.header) ∨ t.header h = some x := by
  by_cases hn : h = n.header.hash
  · subst hn
    rw [header_extend_self] at hx
    cases hx
    exact .inl ⟨rfl, rfl⟩
  · exact .inr ((AList.lookup_insert_ne hn).symm.trans hx)

theorem parent_extend_of_some {t : HeaderTree H} {n : t.Child} {h : H} {x : Header H}
    (hx : t.header h = some x) : (t.extend n).parent h = t.parent h := by
  simp only [parent, header_extend_of_some hx, hx]
  rfl

/-- Storing a header changes nothing below the headers stored before. -/
theorem ancestor_extend_iff {t : HeaderTree H} {n : t.Child} {a h : H} {x : Header H}
    (hx : t.header h = some x) :
    (t.extend n).links.Ancestor a h ↔ t.links.Ancestor a h := by
  constructor
  · intro ha
    induction ha generalizing x with
    | refl => exact .refl
    | child hp _ ih =>
        rw [links_parent, parent_extend_of_some hx] at hp
        obtain ⟨-, -, q, -, -, hq, -⟩ := parent_inv hp
        exact .child hp (ih hq)
  · intro ha
    induction ha generalizing x with
    | refl => exact .refl
    | child hp _ ih =>
        obtain ⟨-, -, q, -, -, hq, -⟩ := parent_inv hp
        refine .child ?_ (ih hq)
        rw [links_parent, parent_extend_of_some hx]
        exact hp

theorem number_extend {t : HeaderTree H} {n : t.Child} {h : H} {x : Header H}
    (hx : t.header h = some x) : (t.extend n).number h = t.number h := by
  rw [number_eq hx, number_eq (header_extend_of_some hx)]

theorem meet_extend_iff {t : HeaderTree H} {n : t.Child} {c h k : H} {x y : Header H}
    (hx : t.header h = some x) (hy : t.header k = some y) :
    (t.extend n).links.Meet c h k ↔ t.links.Meet c h k := by
  have number_same {d : H} (hd : t.links.Ancestor d h) :
      (t.extend n).number d = t.number d := by
    obtain ⟨z, hz⟩ := t.ancestor_stored hd hx
    exact number_extend hz
  constructor
  · rintro ⟨hl, hr, top⟩
    rw [ancestor_extend_iff hx] at hl
    rw [ancestor_extend_iff hy] at hr
    refine ⟨hl, hr, ?_⟩
    intro d hdl hdr
    have := top d ((ancestor_extend_iff hx).mpr hdl) ((ancestor_extend_iff hy).mpr hdr)
    simpa only [links_number, number_same hdl, number_same hl] using this
  · rintro ⟨hl, hr, top⟩
    refine ⟨(ancestor_extend_iff hx).mpr hl, (ancestor_extend_iff hy).mpr hr, ?_⟩
    intro d hdl hdr
    rw [ancestor_extend_iff hx] at hdl
    rw [ancestor_extend_iff hy] at hdr
    simpa only [links_number, number_same hdl, number_same hl] using top d hdl hdr

theorem Child.ne_root {t : HeaderTree H} (n : t.Child) : n.header.hash ≠ t.root := by
  intro same
  have stored := t.root_stored
  have fresh : t.headers.lookup n.header.hash = none := n.fresh
  rw [← same, fresh] at stored
  cases stored

theorem parent_extend_self (t : HeaderTree H) (n : t.Child) :
    (t.extend n).parent n.header.hash = some n.header.parentHash :=
  parent_eq (t.header_extend_self n) n.ne_root

/-- The new header is a leaf, and its parent no longer is one. -/
theorem isLeaf_extend_iff {t : HeaderTree H} {n : t.Child} {h : H} :
    (t.extend n).IsLeaf h ↔ h = n.header.hash ∨ (t.IsLeaf h ∧ h ≠ n.header.parentHash) := by
  constructor
  · intro ⟨⟨x, hx⟩, no_child⟩
    cases header_extend_cases hx with
    | inl new => exact .inl new.1
    | inr old =>
        refine .inr ⟨⟨⟨x, old⟩, ?_⟩, ?_⟩
        · intro k hk
          obtain ⟨-, y, -, hy, -⟩ := parent_inv hk
          exact no_child k ((parent_extend_of_some hy).trans hk)
        · intro parent
          apply no_child n.header.hash
          rw [parent_extend_self, parent]
  · intro cases_h
    cases cases_h with
    | inl new =>
        subst new
        refine ⟨⟨_, t.header_extend_self n⟩, ?_⟩
        intro k hk
        obtain ⟨-, y, q, hy, hp, hq, number⟩ := parent_inv hk
        cases header_extend_cases hy with
        | inl new =>
            rw [t.header_extend_self n] at hq
            cases hq
            rw [new.2] at number
            omega
        | inr old =>
            have below := parent_extend_of_some (n := n) old
            rw [hk] at below
            obtain ⟨-, -, q', -, -, hq', -⟩ := parent_inv below.symm
            rw [n.fresh] at hq'
            cases hq'
    | inr old =>
        obtain ⟨⟨⟨x, hx⟩, no_child⟩, not_parent⟩ := old
        refine ⟨⟨x, header_extend_of_some hx⟩, ?_⟩
        intro k hk
        obtain ⟨-, y, -, hy, hp, -⟩ := parent_inv hk
        cases header_extend_cases hy with
        | inl new =>
            rw [new.2] at hp
            exact not_parent hp.symm
        | inr old => exact no_child k ((parent_extend_of_some old).symm.trans hk)

end HeaderTree
end Resonance
