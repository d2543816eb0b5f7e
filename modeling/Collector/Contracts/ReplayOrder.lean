import Collector.Contracts.Replay
import Collector.Contracts.Supersession

/-!
The snapshot depends on which decisions there are, not on the order they are listed in and not on
the order in which any set is visited on the way.
-/

namespace Collector.Contracts
open Collector.Lib

/-- Where no version is listed twice, the latest decisions are those with no higher version. -/
theorem mem_latestDecisions {decisions : List ResolutionDecision}
    (distinct : (decisions.map fun d => (d.decisionId, d.decisionVersion)).Nodup)
    {d : ResolutionDecision} :
    d ∈ latestDecisions decisions ↔ d ∈ decisions ∧
      ∀ e ∈ decisions, e.decisionId = d.decisionId → e.decisionVersion ≤ d.decisionVersion := by
  have spec := latestDecisions_spec decisions
  constructor
  · intro latest
    refine ⟨spec.known latest, fun e member same => ?_⟩
    obtain ⟨c, here, again, above⟩ := spec.covers e member
    rwa [spec.eq_of_id_eq here latest (again.trans same)] at above
  · rintro ⟨member, highest⟩
    obtain ⟨c, here, same, above⟩ := spec.covers d member
    have below := highest c (spec.known here) same
    have equal : c = d := List.inj_on_of_nodup_map distinct (spec.known here) member
      (Prod.ext same (le_antisymm below above))
    exact equal ▸ here

theorem latestDecisions_perm {decisions rearranged : List ResolutionDecision}
    (perm : decisions.Perm rearranged)
    (distinct : (decisions.map fun d => (d.decisionId, d.decisionVersion)).Nodup) :
    (latestDecisions decisions).Perm (latestDecisions rearranged) := by
  have also := ((perm.map fun d => (d.decisionId, d.decisionVersion)).nodup_iff).mp distinct
  have first := (latestDecisions_spec decisions).distinct.of_map
  have second := (latestDecisions_spec rearranged).distinct.of_map
  rw [List.perm_ext_iff_of_nodup first second]
  intro d
  rw [mem_latestDecisions distinct, mem_latestDecisions also]
  simp only [perm.mem_iff]

/-- Two results of the supersession loop that name the same decisions. -/
inductive SameEffective : Except ContractError (List ResolutionDecision × Finset Uuid) →
    Except ContractError (List ResolutionDecision × Finset Uuid) → Prop where
  | raised (e : ContractError) : SameEffective (.error e) (.error e)
  | returned {effective rearranged : List ResolutionDecision} (superseded : Finset Uuid)
      (perm : effective.Perm rearranged) :
      SameEffective (.ok (effective, superseded)) (.ok (rearranged, superseded))

theorem settle_perm {candidates rearranged : List ResolutionDecision}
    (perm : candidates.Perm rearranged) (left : Nat) (superseded : Finset Uuid) :
    SameEffective (settle candidates left superseded) (settle rearranged left superseded) := by
  induction left generalizing superseded with
  | zero => exact .raised _
  | succ left ih =>
    have effective : (effectiveAmong candidates superseded).Perm
        (effectiveAmong rearranged superseded) := perm.filter _
    have next : nextSuperseded (effectiveAmong candidates superseded) =
        nextSuperseded (effectiveAmong rearranged superseded) :=
      List.toFinset_eq_of_perm _ _ (effective.filterMap _)
    simp only [settle, next]
    split
    · exact .returned superseded effective
    · exact ih _

theorem effectiveDecisions_perm {decisions rearranged : List ResolutionDecision}
    (perm : decisions.Perm rearranged)
    (distinct : (decisions.map fun d => (d.decisionId, d.decisionVersion)).Nodup) :
    SameEffective (effectiveDecisions decisions) (effectiveDecisions rearranged) := by
  have candidates := latestDecisions_perm perm distinct
  have passes := settle_perm candidates ((latestDecisions decisions).length + 1) ∅
  conv at passes => arg 2; rw [candidates.length_eq]
  exact passes

/-- No two effective decisions tie in the replay order: the id is the last part of the key. -/
theorem replayKey_injOn {decisions effective : List ResolutionDecision} {superseded : Finset Uuid}
    (returned : effectiveDecisions decisions = .ok (effective, superseded)) :
    ∀ a ∈ effective, ∀ b ∈ effective, replayKey a = replayKey b → a = b := by
  have among := (settle_solution returned).1
  have latest : ∀ d ∈ effective, d ∈ latestDecisions decisions := by
    intro d member
    rw [among] at member
    exact (mem_effectiveAmong.mp member).1
  intro a here b there same
  apply (latestDecisions_spec decisions).eq_of_id_eq (latest a here) (latest b there)
  simp only [replayKey, toLex_inj, Prod.mk.injEq] at same
  exact same.2.2.2

/-- Any arrangement of the decisions gives the same snapshot, or the same error. -/
theorem replay_order_independent (orders rearrangedOrders : Nat → SetOrder)
    {decisions rearranged : List ResolutionDecision} (perm : decisions.Perm rearranged)
    (distinct : (decisions.map fun d => (d.decisionId, d.decisionVersion)).Nodup) :
    projectGroups orders decisions = projectGroups rearrangedOrders rearranged := by
  have same := effectiveDecisions_perm perm distinct
  unfold projectGroups
  generalize here : effectiveDecisions decisions = first at same ⊢
  generalize effectiveDecisions rearranged = second at same ⊢
  cases same with
  | raised e => rfl
  | @returned effective _ superseded perm =>
    have ordered := sortedBy_eq_of_perm replayKey perm (replayKey_injOn here)
    obtain ⟨last, _, answers⟩ := replay_answers consistent_start (sortedBy replayKey effective)
    simp only [bind, Except.bind, ← ordered, answers]

/-- The opposite of another order. -/
def SetOrder.reversed (order : SetOrder) : SetOrder where
  visit s := (order.visit s).reverse
  nodup s := List.nodup_reverse.mpr (order.nodup s)
  mem_visit s x := by rw [List.mem_reverse, order.mem_visit]

theorem replay_order_independent_reversed :
    projectGroups (fun _ => .ascending) Sample.chain =
      projectGroups (fun _ => SetOrder.ascending.reversed) Sample.chain.reverse :=
  replay_order_independent _ _ (List.reverse_perm _).symm (by decide)

end Collector.Contracts
