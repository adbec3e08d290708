import Mathlib

/-! Flows with integer capacities, and the cuts that bound them. -/
namespace DbfAnonymizer.Lib
open Finset

/-- Edges with capacities between nodes; edges may be parallel. -/
structure FlowNetwork (ν ε : Type*) where
  tail : ε → ν
  head : ε → ν
  capacity : ε → ℤ

namespace FlowNetwork
variable {ν ε : Type*} [DecidableEq ν] [Fintype ε] (N : FlowNetwork ν ε) {source sink : ν} {value : ℤ} {f : ε → ℤ}

/-- What an assignment of amounts sends out of a node, less what it sends in. -/
def netOut (f : ε → ℤ) (v : ν) : ℤ := ∑ e with N.tail e = v, f e - ∑ e with N.head e = v, f e

/-- Amounts within the capacities that balance everywhere but at the source and the sink. -/
structure IsFlow (source sink : ν) (value : ℤ) (f : ε → ℤ) : Prop where
  nonneg : ∀ e, 0 ≤ f e
  le_capacity : ∀ e, f e ≤ N.capacity e
  conserved : ∀ v, v ≠ source → v ≠ sink → N.netOut f v = 0
  value_eq : N.netOut f source = value

/-- The value that no flow exceeds. -/
def IsMaximum (source sink : ν) (best : ℤ) : Prop := IsGreatest {value | ∃ f, N.IsFlow source sink value f} best

theorem sum_netOut (f : ε → ℤ) (side : Finset ν) : ∑ v ∈ side, N.netOut f v =
    ∑ e with N.tail e ∈ side ∧ N.head e ∉ side, f e - ∑ e with N.tail e ∉ side ∧ N.head e ∈ side, f e := by
  have hout : ∑ v ∈ side, ∑ e with N.tail e = v, f e = ∑ e with N.tail e ∈ side, f e :=
    sum_fiberwise_eq_sum_filter univ side N.tail f
  have hin : ∑ v ∈ side, ∑ e with N.head e = v, f e = ∑ e with N.head e ∈ side, f e :=
    sum_fiberwise_eq_sum_filter univ side N.head f
  simp only [netOut, sum_sub_distrib, hout, hin]
  have htail := sum_filter_add_sum_filter_not {e | N.tail e ∈ side} (fun e => N.head e ∈ side) f
  have hhead := sum_filter_add_sum_filter_not {e | N.head e ∈ side} (fun e => N.tail e ∈ side) f
  simp only [filter_filter] at htail hhead
  have hboth : ∑ e with N.head e ∈ side ∧ N.tail e ∈ side, f e = ∑ e with N.tail e ∈ side ∧ N.head e ∈ side, f e := by
    simp only [and_comm]
  have hback : ∑ e with N.head e ∈ side ∧ N.tail e ∉ side, f e = ∑ e with N.tail e ∉ side ∧ N.head e ∈ side, f e := by
    simp only [and_comm]
  linarith

variable {N}

namespace IsFlow

theorem value_eq_cut (h : N.IsFlow source sink value f) {side : Finset ν} (hsource : source ∈ side)
    (hsink : sink ∉ side) : value =
      ∑ e with N.tail e ∈ side ∧ N.head e ∉ side, f e - ∑ e with N.tail e ∉ side ∧ N.head e ∈ side, f e := by
  have honly : ∑ v ∈ side, N.netOut f v = N.netOut f source := by
    apply sum_eq_single_of_mem source hsource
    intro v hv hne
    apply h.conserved v hne
    rintro rfl
    exact hsink hv
  rw [← N.sum_netOut, honly, h.value_eq]

theorem value_le_cut (h : N.IsFlow source sink value f) {side : Finset ν} (hsource : source ∈ side)
    (hsink : sink ∉ side) : value ≤ ∑ e with N.tail e ∈ side ∧ N.head e ∉ side, N.capacity e := by
  have hforward : ∑ e with N.tail e ∈ side ∧ N.head e ∉ side, f e ≤
      ∑ e with N.tail e ∈ side ∧ N.head e ∉ side, N.capacity e := sum_le_sum fun e _ => h.le_capacity e
  have hback : 0 ≤ ∑ e with N.tail e ∉ side ∧ N.head e ∈ side, f e := sum_nonneg fun e _ => h.nonneg e
  have hcut := h.value_eq_cut hsource hsink
  linarith

/-- A flow that fills a cut, with nothing coming back, is a maximum. -/
theorem isMaximum (h : N.IsFlow source sink value f) {side : Finset ν} (hsource : source ∈ side) (hsink : sink ∉ side)
    (hfull : ∀ e, N.tail e ∈ side → N.head e ∉ side → f e = N.capacity e)
    (hback : ∀ e, N.tail e ∉ side → N.head e ∈ side → f e = 0) : N.IsMaximum source sink value := by
  have hcapacity : value = ∑ e with N.tail e ∈ side ∧ N.head e ∉ side, N.capacity e := by
    have hforward : ∑ e with N.tail e ∈ side ∧ N.head e ∉ side, f e =
        ∑ e with N.tail e ∈ side ∧ N.head e ∉ side, N.capacity e := by
      apply sum_congr rfl
      intro e he
      obtain ⟨-, htail, hhead⟩ := mem_filter.mp he
      exact hfull e htail hhead
    have hzero : ∑ e with N.tail e ∉ side ∧ N.head e ∈ side, f e = 0 := by
      apply sum_eq_zero
      intro e he
      obtain ⟨-, htail, hhead⟩ := mem_filter.mp he
      exact hback e htail hhead
    have hcut := h.value_eq_cut hsource hsink
    linarith
  refine ⟨⟨f, h⟩, ?_⟩
  rintro other ⟨g, hg⟩
  rw [hcapacity]
  exact hg.value_le_cut hsource hsink

theorem le_maximum (h : N.IsFlow source sink value f) {best : ℤ} (hbest : N.IsMaximum source sink best) :
    value ≤ best := hbest.2 ⟨f, h⟩

end IsFlow

theorem exists_isMaximum (hcapacity : ∀ e, 0 ≤ N.capacity e) (hne : source ≠ sink) :
    ∃ best, 0 ≤ best ∧ N.IsMaximum source sink best := by
  have hzero : N.IsFlow source sink 0 fun _ => 0 := by
    refine ⟨fun _ => le_rfl, hcapacity, ?_, ?_⟩
    · intro v _ _
      simp [netOut]
    · simp [netOut]
  have hbound : ∀ value, (∃ f, N.IsFlow source sink value f) →
      value ≤ ∑ e with N.tail e ∈ ({source} : Finset ν) ∧ N.head e ∉ ({source} : Finset ν), N.capacity e := by
    rintro value ⟨f, hf⟩
    exact hf.value_le_cut (mem_singleton_self source) (notMem_singleton.mpr hne.symm)
  obtain ⟨best, hbest, hgreatest⟩ := Int.exists_greatest_of_bdd ⟨_, hbound⟩ ⟨0, _, hzero⟩
  exact ⟨best, hgreatest 0 ⟨_, hzero⟩, hbest, fun value hvalue => hgreatest value hvalue⟩

end FlowNetwork
end DbfAnonymizer.Lib
