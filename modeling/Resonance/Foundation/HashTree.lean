import Mathlib.Data.List.Induction

/-!
Hash trees whose inner nodes hash their children in an order of their own.

A leaf is opened by the digests of its siblings from the leaf to the root, and an
opening is checked by climbing: the next digest is the parent of the last one and
the next sibling. Every opening of the tree climbs to its root. Conversely a
climb that ends at the root started at a leaf, unless two different messages
hashed in the tree and on the climb have one digest.
-/
universe u v w

/-- The messages that are hashed. A node's message does not tell which child is
which, and tells a leaf from a node. -/
structure HashTree.Scheme (L : Type u) (D : Type v) (M : Type w) where
  hash : M → D
  leafMessage : L → M
  nodeMessage : D → D → M
  leafMessage_injective : ∀ {l l'}, leafMessage l = leafMessage l' → l = l'
  nodeMessage_comm : ∀ d e, nodeMessage d e = nodeMessage e d
  nodeMessage_injective : ∀ {d e d' e'}, nodeMessage d e = nodeMessage d' e' → d = d' ∨ d = e'
  leafMessage_ne_nodeMessage : ∀ {l d e}, leafMessage l ≠ nodeMessage d e

inductive HashTree (L : Type u)
  | leaf (l : L)
  | node (left right : HashTree L)

namespace HashTree
variable {L : Type u} {D : Type v} {M : Type w}

def leaves : HashTree L → List L
  | leaf l => [l]
  | node left right => left.leaves ++ right.leaves

namespace Scheme
variable (S : Scheme L D M)

def root : HashTree L → D
  | leaf l => S.hash (S.leafMessage l)
  | node left right => S.hash (S.nodeMessage (root left) (root right))

/-- Each leaf with its siblings' digests, the lowest first. -/
def openings : HashTree L → List (L × List D)
  | leaf l => [(l, [])]
  | node left right =>
    (openings left).map (fun o => (o.1, o.2 ++ [S.root right])) ++
      (openings right).map (fun o => (o.1, o.2 ++ [S.root left]))

def climb (d : D) (proof : List D) : D :=
  proof.foldl (fun d e => S.hash (S.nodeMessage d e)) d

/-- What is hashed in the tree. -/
def messages : HashTree L → List M
  | leaf l => [S.leafMessage l]
  | node left right =>
    S.nodeMessage (S.root left) (S.root right) :: (messages left ++ messages right)

def pathMessages (d : D) : List D → List M
  | [] => []
  | e :: proof => S.nodeMessage d e :: pathMessages (S.hash (S.nodeMessage d e)) proof

/-- What is hashed when a leaf's opening is checked. -/
def climbMessages (l : L) (proof : List D) : List M :=
  S.leafMessage l :: S.pathMessages (S.hash (S.leafMessage l)) proof

/-- No digest hashed on the climb is that of a different message of the tree. -/
def NoCollision (t : HashTree L) (l : L) (proof : List D) : Prop :=
  ∀ x ∈ S.climbMessages l proof, ∀ y ∈ S.messages t, S.hash x = S.hash y → x = y

variable {S} {t left right : HashTree L} {l : L} {d e : D} {proof : List D}

@[simp] theorem climb_nil : S.climb d [] = d := rfl

@[simp] theorem climb_append_singleton :
    S.climb d (proof ++ [e]) = S.hash (S.nodeMessage (S.climb d proof) e) := by
  simp [climb]

theorem openings_map_fst (t : HashTree L) : (S.openings t).map Prod.fst = t.leaves := by
  induction t with
  | leaf l => rfl
  | node left right ihl ihr =>
      rw [openings, leaves, List.map_append, List.map_map, List.map_map, ← ihl, ← ihr]
      rfl

theorem climb_of_mem_openings (t : HashTree L) :
    ∀ o ∈ S.openings t, S.climb (S.hash (S.leafMessage o.1)) o.2 = S.root t := by
  induction t with
  | leaf l =>
      intro o mem
      rw [List.mem_singleton.mp mem]
      rfl
  | node left right ihl ihr =>
      intro o mem
      rw [openings, List.mem_append, List.mem_map, List.mem_map] at mem
      cases mem with
      | inl inside =>
          obtain ⟨o, mem, rfl⟩ := inside
          rw [climb_append_singleton, ihl o mem, root]
      | inr inside =>
          obtain ⟨o, mem, rfl⟩ := inside
          rw [climb_append_singleton, ihr o mem, root, S.nodeMessage_comm]

theorem pathMessages_append_singleton :
    S.pathMessages d (proof ++ [e]) =
      S.pathMessages d proof ++ [S.nodeMessage (S.climb d proof) e] := by
  induction proof generalizing d with
  | nil => rfl
  | cons f proof ih =>
      rw [List.cons_append, pathMessages, ih, pathMessages, List.cons_append]
      rfl

theorem mem_climbMessages_append (x : M) :
    x ∈ S.climbMessages l (proof ++ [e]) ↔
      x ∈ S.climbMessages l proof ∨
        x = S.nodeMessage (S.climb (S.hash (S.leafMessage l)) proof) e := by
  rw [climbMessages, climbMessages, pathMessages_append_singleton, ← List.cons_append,
    List.mem_append, List.mem_singleton]

theorem leafMessage_mem_climbMessages : S.leafMessage l ∈ S.climbMessages l proof :=
  List.mem_cons_self

/-- A climb without collisions that ends at the root of the tree started at one of
its leaves: its last step is a node, of the same two children. -/
theorem mem_leaves_of_climb (t : HashTree L) (proof : List D) (free : S.NoCollision t l proof)
    (reaches : S.climb (S.hash (S.leafMessage l)) proof = S.root t) : l ∈ t.leaves := by
  induction t generalizing proof with
  | leaf l' =>
      cases List.eq_nil_or_concat proof with
      | inl empty =>
          subst empty
          have same := free _ leafMessage_mem_climbMessages _ (List.mem_singleton_self _) reaches
          exact List.mem_singleton.mpr (S.leafMessage_injective same)
      | inr last =>
          obtain ⟨proof, e, rfl⟩ := last
          rw [List.concat_eq_append, climb_append_singleton] at reaches
          rw [List.concat_eq_append] at free
          have same := free _ ((mem_climbMessages_append _).mpr (.inr rfl)) _
            (List.mem_singleton_self _) reaches
          exact absurd same.symm S.leafMessage_ne_nodeMessage
  | node left right ihl ihr =>
      have root : S.nodeMessage (S.root left) (S.root right) ∈ S.messages (.node left right) :=
        List.mem_cons_self
      cases List.eq_nil_or_concat proof with
      | inl empty =>
          subst empty
          have same := free _ leafMessage_mem_climbMessages _ root reaches
          exact absurd same S.leafMessage_ne_nodeMessage
      | inr last =>
          obtain ⟨proof, e, rfl⟩ := last
          rw [List.concat_eq_append, climb_append_singleton] at reaches
          rw [List.concat_eq_append] at free
          have same := free _ ((mem_climbMessages_append _).mpr (.inr rfl)) _ root reaches
          have below (child : HashTree L) (mem : ∀ y ∈ S.messages child,
              y ∈ S.messages left ++ S.messages right) : S.NoCollision child l proof :=
            fun x hx y hy => free x ((mem_climbMessages_append x).mpr (.inl hx)) y
              (List.mem_cons_of_mem _ (mem y hy))
          cases S.nodeMessage_injective same with
          | inl first =>
              exact List.mem_append_left _
                (ihl proof (below left fun y => List.mem_append_left _) first)
          | inr second =>
              exact List.mem_append_right _
                (ihr proof (below right fun y => List.mem_append_right _) second)

end Scheme
end HashTree
