import HoldMargin.Length
import HoldMargin.Proofs.Reached
/-!
# The length at a node

`Device.LengthAt` says what the length at a node is: nothing at a root, and
at any other node the length at the node before it and the toll. If a node is
entered from one node at most (`Device.EntersOnce`), as in a forest, there is
one way to it at most, so it has one length at most, and lengths do not go
down along a way. A walk over the route finds these lengths and no others
(`Route.get?_lengthsFrom`).
-/

namespace HoldMargin

open Relation

namespace IdMap

variable {t : Table} {α : Type} {i : TableId t} {a b : α} {is : List (TableId t)}

theorem get?_ofKeys : (ofKeys is a).get? i = some b ↔ i ∈ is ∧ b = a := by
  suffices hgen : ∀ m : IdMap t α, (is.foldl (·.insert · a) m).get? i = some b ↔
      i ∈ is ∧ b = a ∨ i ∉ is ∧ m.get? i = some b by
    rw [ofKeys, hgen]
    simp
  induction is with
  | nil => simp
  | cons j js ih =>
    intro m
    rw [List.foldl_cons, ih, get?_insert, List.mem_cons]
    by_cases hij : i = j
    · subst hij
      simp only [if_pos, Option.some.injEq, true_or, true_and, not_true_eq_false, false_and,
        or_false, eq_comm]
      tauto
    · simp only [hij, if_false, false_or]

end IdMap

namespace Device

/-- **The length at a node** of a route that starts at some roots. -/
inductive LengthAt (d : Device) (w : Weighting) (es : EdgeSet) (roots : List NodeId) :
    NodeId → Nat → Prop
  | root {n : NodeId} : n ∈ roots → LengthAt d w es roots n 0
  | step {m n : NodeId} {length toll : Nat} : LengthAt d w es roots m length → d.Leads es m n →
      n ∉ roots → w.toll d n = some toll → LengthAt d w es roots n (clamp (length + toll))

/-- **Edges that come from one side**: a node that is no root is entered from one
node at most. -/
def EntersOnce (d : Device) (es : EdgeSet) (roots : List NodeId) : Prop :=
  ∀ u v n, n ∉ roots → d.Leads es u n → d.Leads es v n → u = v

theorem IsForest.entersOnce {d : Device} {es : EdgeSet} (hf : d.IsForest es)
    (roots : List NodeId) : d.EntersOnce es roots :=
  fun _ _ _ _ hu hv => hf.pred_unique hu hv

namespace LengthAt

variable {d : Device} {w : Weighting} {es : EdgeSet} {roots : List NodeId} {m n : NodeId}
  {k l : Nat}

theorem le_maxLength (h : d.LengthAt w es roots n k) : k ≤ maxLength := by
  cases h with
  | root _ => exact Nat.zero_le _
  | step _ _ _ _ => exact clamp_le _

/-- A node with a length is one that edges lead to from a root. -/
theorem exists_root (h : d.LengthAt w es roots n k) :
    ∃ root ∈ roots, ReflTransGen (d.Leads es) root n := by
  induction h with
  | root hn => exact ⟨_, hn, .refl⟩
  | step _ hl _ _ ih =>
    obtain ⟨root, hroot, hto⟩ := ih
    exact ⟨root, hroot, hto.tail hl⟩

/-- **A node that is entered from one side has one length at most.** -/
theorem unique_of_entersOnce (honce : d.EntersOnce es roots) (h : d.LengthAt w es roots n k)
    (h' : d.LengthAt w es roots n l) : k = l := by
  induction h generalizing l with
  | root hn =>
    cases h' with
    | root _ => rfl
    | step _ _ hno _ => exact absurd hn hno
  | step _ hl hno ht ih =>
    cases h' with
    | root hn => exact absurd hn hno
    | step hm' hl' _ ht' =>
      have hmm := honce _ _ _ hno hl hl'
      subst hmm
      rw [ht, Option.some.injEq] at ht'
      rw [ih hm', ht']

/-- In a forest a node has one length at most. -/
theorem unique (hf : d.IsForest es) (h : d.LengthAt w es roots n k)
    (h' : d.LengthAt w es roots n l) : k = l :=
  h.unique_of_entersOnce (hf.entersOnce roots) h'

/-- The next node has no smaller length, unless it is a root. -/
theorem le_of_leads (hf : d.IsForest es) (hm : d.LengthAt w es roots m k) (hl : d.Leads es m n)
    (hno : n ∉ roots) (hn : d.LengthAt w es roots n l) : k ≤ l := by
  cases hn with
  | root hn => exact absurd hn hno
  | @step m' _ k' toll hm' hl' _ _ =>
    have hmm := hf.pred_unique hl hl'
    subst hmm
    rw [hm.unique hf hm']
    have hmax := hm'.le_maxLength
    unfold clamp
    omega

/-- **Lengths do not go down along a way** that meets no root. -/
theorem le_of_below (hf : d.IsForest es) (hm : d.LengthAt w es roots m k)
    (hto : ReflTransGen (d.Leads es) m n) (hfree : ∀ v, ReflTransGen (d.Leads es) m v → v ∉ roots)
    (hn : d.LengthAt w es roots n l) : k ≤ l := by
  induction hto generalizing l with
  | refl => exact Nat.le_of_eq (hm.unique hf hn)
  | @tail u n hmu hl ih =>
    have hno := hfree n (hmu.tail hl)
    cases hn with
    | root hn => exact absurd hn hno
    | @step u' _ j toll hu' hl' _ ht =>
      -- the last step of the way is the one its length was taken by
      have huu := hf.pred_unique hl hl'
      subst huu
      exact Nat.le_trans (ih hu') (hu'.le_of_leads hf hl hno (.step hu' hl hno ht))

end LengthAt

end Device

namespace Route

variable {d : Device} {w : Weighting} {es : EdgeSet} {r : Route} {roots seen : List NodeId}
  {vs : List Visit} {ls ls' : Lengths} {net : String} {n : NodeId} {k : Nat}

/-- **What the lengths say along a walk:** they are right, and there is one for
every node that was seen. -/
structure Reckons (d : Device) (w : Weighting) (es : EdgeSet) (roots seen : List NodeId)
    (ls : Lengths) : Prop where
  sound : ∀ n k, ls.get? n = some k → d.LengthAt w es roots n k
  known : ∀ n ∈ seen, ∃ k, ls.get? n = some k
  from_roots : ∀ n ∈ roots, n ∈ seen

/-- A visit goes on from a node that has a length. -/
theorem Reckons.visit {v : Visit} (hd : r.Draws d es) (h : Reckons d w es roots seen ls)
    (hsrc : v.src ∈ seen) (hnode : v.node ∉ seen) (hl : r.Leads v.src v.node)
    (hls : ls.visit w d net v = .ok ls') : Reckons d w es roots (v.node :: seen) ls' := by
  obtain ⟨k, hk⟩ := h.known _ hsrc
  unfold Lengths.visit at hls
  split at hls
  · rename_i toll ht
    cases hls
    -- the node has not been seen, so it is no root
    have hstep : d.LengthAt w es roots v.node (clamp ((ls.get? v.src).getD 0 + toll)) := by
      rw [hk, Option.getD_some]
      exact .step (h.sound _ _ hk) (hd.leads_iff.mp hl) (fun hr => hnode (h.from_roots _ hr)) ht
    refine ⟨fun n k' hk' => ?_, fun n hn => ?_,
      fun n hn => List.mem_cons_of_mem _ (h.from_roots n hn)⟩
    · rw [IdMap.get?_insert] at hk'
      split at hk'
      · rename_i hn
        cases hk'
        exact hn ▸ hstep
      · exact h.sound n k' hk'
    · rw [IdMap.get?_insert]
      split
      · exact ⟨_, rfl⟩
      · rename_i hne
        exact h.known n ((List.mem_cons.mp hn).resolve_left hne)
  · cases hls

theorem Reckons.visits (hd : r.Draws d es) (hvs : r.Explores seen vs)
    (h : Reckons d w es roots seen ls) (hls : vs.foldlM (Lengths.visit · w d net) ls = .ok ls') :
    Reckons d w es roots (seen ++ vs.map Visit.node) ls' := by
  induction hvs generalizing ls with
  | nil =>
    cases hls
    simpa using h
  | @cons seen v vs hsrc hnode hl _ ih =>
    rw [List.foldlM_cons] at hls
    obtain ⟨next, hnext, hls⟩ := bind_eq_ok.mp hls
    have hlast := ih (h.visit hd hsrc hnode hl hnext) hls
    refine ⟨hlast.sound, fun n hn => hlast.known n ?_, fun n hn => ?_⟩
    · simp only [List.map_cons, List.mem_append, List.mem_cons] at hn ⊢
      tauto
    · exact List.mem_append_left _ (h.from_roots n hn)

theorem reckons_lengthsFrom (hd : r.Draws d es) (h : r.lengthsFrom w d net roots = .ok ls) :
    Reckons d w es roots (roots ++ (r.walk roots).map Visit.node) ls := by
  have hfirst : Reckons d w es roots roots (IdMap.ofKeys roots 0) := by
    refine ⟨fun n k hk => ?_, fun n hn => ⟨0, IdMap.get?_ofKeys.mpr ⟨hn, rfl⟩⟩, fun n hn => hn⟩
    obtain ⟨hn, rfl⟩ := IdMap.get?_ofKeys.mp hk
    exact .root hn
  exact hfirst.visits hd (r.explores_walk roots) h

/-- Every node that the route leads to has a length. -/
theorem exists_length (hd : r.Draws d es) (h : r.lengthsFrom w d net roots = .ok ls)
    (hn : ∃ root ∈ roots, ReflTransGen (d.Leads es) root n) : ∃ k, ls.get? n = some k := by
  refine (reckons_lengthsFrom hd h).known n ?_
  rw [← hd.leads_eq] at hn
  rcases met_iff.mpr hn with hn | ⟨v, hv, rfl⟩
  · exact List.mem_append_left _ hn
  · exact List.mem_append_right _ (List.mem_map_of_mem hv)

/-- **The lengths a walk finds** are those that nodes have. -/
theorem get?_lengthsFrom_of_entersOnce (hd : r.Draws d es) (honce : d.EntersOnce es roots)
    (h : r.lengthsFrom w d net roots = .ok ls) :
    ls.get? n = some k ↔ d.LengthAt w es roots n k := by
  have hall := reckons_lengthsFrom hd h
  refine ⟨hall.sound n k, fun hk => ?_⟩
  obtain ⟨l, hl⟩ := exists_length hd h hk.exists_root
  rw [hl, (hall.sound n l hl).unique_of_entersOnce honce hk]

theorem get?_lengthsFrom (hd : r.Draws d es) (hf : d.IsForest es)
    (h : r.lengthsFrom w d net roots = .ok ls) :
    ls.get? n = some k ↔ d.LengthAt w es roots n k :=
  get?_lengthsFrom_of_entersOnce hd (hf.entersOnce roots) h

end Route

end HoldMargin
