import HoldMargin.Device.Projection
import HoldMargin.Proofs.Hops
/-!
# The nearest fabric node

A pin projects onto the fabric by a walk that goes a few hops at most. After
`k` rounds the walk has met what is `k` hops away or nearer, and goes on from
what is `k` hops away and no nearer (`Layer`). So the first fabric node that it
comes to is as near as any, and where it comes to none there is none within its
reach (`Device.entries_nearest`). Nothing is asked of the device: ways may
branch, join again or go round in circles, the index may list edges that the
device does not have, and a pin may have no node.
-/

namespace HoldMargin

/-- What is not seen of a list, whatever its order. -/
theorem mem_unseen {α : Type} [BEq α] [LawfulBEq α] {seen xs : List α} {x : α} :
    x ∈ unseen seen xs ↔ x ∉ seen ∧ x ∈ xs := by
  simp only [unseen, List.mem_eraseDups, List.mem_filter, Bool.not_eq_true',
    List.contains_eq_mem, decide_eq_false_iff_not]
  exact and_comm

namespace Device

variable {d : Device} {way : Way} {pin : SitePin} {start m n : NodeId}
  {seen frontier : List NodeId} {k hops : Nat}

/-! ## Hops along listed edges -/

/-- Whether an edge that is listed at a node, and is in the device, leads from
there to another node: down to its end, or up to its start. -/
def Adjoins (d : Device) (way : Way) (m n : NodeId) : Prop :=
  match way with
  | .downhill => ∃ i ∈ d.downhill m, ∃ e, d.edge? i = some e ∧ e.dst = n
  | .uphill => ∃ i ∈ d.uphill m, ∃ e, d.edge? i = some e ∧ e.src = n

theorem mem_hop : n ∈ d.hop way m ↔ d.Adjoins way m n := by
  cases way <;> simp only [hop, Adjoins, List.mem_map, List.mem_filterMap] <;> grind

/-- A way of so many hops from a node to another one. -/
abbrev HopsFrom (d : Device) (way : Way) (start : NodeId) : NodeId → Nat → Prop :=
  Hops (d.Adjoins way) [start]

/-- A round meets what is one hop away and has not been seen. -/
theorem mem_unseen_hop : n ∈ unseen seen (frontier.flatMap (d.hop way)) ↔
    n ∉ seen ∧ ∃ m ∈ frontier, d.Adjoins way m n := by
  simp only [mem_unseen, List.mem_flatMap, mem_hop]

/-! ## What the walk finds -/

/-- Whether no fabric node is fewer than `k` hops away. -/
def NoFabricBelow (d : Device) (way : Way) (start : NodeId) (k : Nat) : Prop :=
  ∀ j < k, ∀ m, d.HopsFrom way start m j → d.isFabric m = false

/-- **A nearest fabric node**, so many hops away. -/
structure NearestFabric (d : Device) (way : Way) (start n : NodeId) (k : Nat) : Prop where
  isFabric : d.isFabric n = true
  hops : d.HopsFrom way start n k
  nearest : d.NoFabricBelow way start k

/-- A fabric node in the first layer that has one is a nearest one. -/
theorem nearestFabric_of_find? (h : Layer (d.Adjoins way) [start] seen frontier k)
    (hbelow : d.NoFabricBelow way start k) (hfind : frontier.find? d.isFabric = some n) :
    d.NearestFabric way start n k where
  isFabric := List.find?_some hfind
  hops := ((h.frontier n).mp (List.mem_of_find?_eq_some hfind)).hops
  nearest := hbelow

/-- A layer without a fabric node is ruled out. -/
theorem noFabricBelow_succ (h : Layer (d.Adjoins way) [start] seen frontier k)
    (hbelow : d.NoFabricBelow way start k) (hnone : frontier.find? d.isFabric = none) :
    d.NoFabricBelow way start (k + 1) := by
  intro j hj m hm
  rcases Nat.lt_or_eq_of_le (Nat.le_of_lt_succ hj) with hj | rfl
  · exact hbelow j hj m hm
  · rcases hm.exists_lt_or_depth with ⟨i, hi, hmi⟩ | hdepth
    · exact hbelow i hi m hmi
    · simpa using List.find?_eq_none.mp hnone m ((h.frontier m).mpr hdepth)

/-- **From layer to layer** a walk comes to a nearest fabric node, or there is none
within its reach. -/
theorem nearestFabric?_cases (h : Layer (d.Adjoins way) [start] seen frontier k)
    (hbelow : d.NoFabricBelow way start k) (hops : Nat) :
    (∃ n, d.nearestFabric? way seen frontier hops = some n ∧
      ∃ j ≤ k + hops, d.NearestFabric way start n j) ∨
    d.nearestFabric? way seen frontier hops = none ∧
      d.NoFabricBelow way start (k + hops + 1) := by
  induction hops generalizing seen frontier k with
  | zero =>
    rw [nearestFabric?]
    cases hfind : frontier.find? d.isFabric with
    | some n => exact .inl ⟨n, rfl, k, Nat.le_refl _, nearestFabric_of_find? h hbelow hfind⟩
    | none => exact .inr ⟨rfl, noFabricBelow_succ h hbelow hfind⟩
  | succ hops ih =>
    rw [nearestFabric?]
    cases hfind : frontier.find? d.isFabric with
    | some n =>
      exact .inl ⟨n, rfl, k, Nat.le_add_right _ _, nearestFabric_of_find? h hbelow hfind⟩
    | none =>
      have hrest := ih (h.next fun _ => mem_unseen_hop) (noFabricBelow_succ h hbelow hfind)
      rwa [Nat.succ_add_eq_add_succ] at hrest

/-- **The fabric entry of a pin**, along a way: a nearest fabric node within reach
of the node of the pin, and none if the pin has no node or no fabric node is
within reach. -/
structure IsEntry (d : Device) (way : Way) (pin : SitePin) (entry : Option NodeId) : Prop where
  nearest : ∀ n, entry = some n →
    ∃ start, d.pinNode? pin = some start ∧
      ∃ k ≤ projectionReach, d.NearestFabric way start n k
  eq_none_iff : entry = none ↔
    d.pinNode? pin = none ∨ ∃ start, d.pinNode? pin = some start ∧
      ∀ k ≤ projectionReach, ∀ n, d.HopsFrom way start n k → d.isFabric n = false

/-- What the node of a pin projects onto is the entry of the pin. -/
theorem isEntry_project? (d : Device) (way : Way) (pin : SitePin) :
    d.IsEntry way pin ((d.pinNode? pin).bind (d.project? way)) := by
  cases hpin : d.pinNode? pin with
  | none => exact ⟨nofun, iff_of_true rfl (.inl hpin)⟩
  | some start =>
    have hnothing : d.NoFabricBelow way start 0 := fun j hj => absurd hj (Nat.not_lt_zero j)
    rw [Option.bind_some, project?]
    rcases nearestFabric?_cases (layer_start fun _ => Iff.rfl) hnothing projectionReach with
      ⟨n, hn, k, hk, hnear⟩ | ⟨hnone, hbelow⟩
    · rw [Nat.zero_add] at hk
      refine ⟨fun n' hn' => ?_, iff_of_false (by simp [hn]) ?_⟩
      · obtain rfl : n = n' := Option.some.inj (hn.symm.trans hn')
        exact ⟨start, hpin, k, hk, hnear⟩
      · rintro (hno | ⟨start', hstart, hno⟩)
        · rw [hpin] at hno
          cases hno
        · obtain rfl : start = start' := Option.some.inj (hpin.symm.trans hstart)
          have hfree := hno k hk n hnear.hops
          rw [hnear.isFabric] at hfree
          cases hfree
    · rw [Nat.zero_add] at hbelow
      refine ⟨fun n hn => ?_, iff_of_true hnone (.inr ⟨start, hpin, fun k hk => ?_⟩)⟩
      · rw [hnone] at hn
        cases hn
      · exact hbelow k (Nat.lt_succ_of_le hk)

/-- **Pins project onto the nearest fabric nodes**, sinks uphill and drivers
downhill, on every device and for every pin. -/
theorem entries_nearest (d : Device) (pin : SitePin) :
    d.IsEntry .uphill pin (d.inputEntry? pin) ∧ d.IsEntry .downhill pin (d.outputEntry? pin) :=
  ⟨d.isEntry_project? .uphill pin, d.isEntry_project? .downhill pin⟩

end Device

end HoldMargin
