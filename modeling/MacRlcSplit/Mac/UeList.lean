-- The UE list of the eNB, `UE_list_t`: the list of UEs for the downlink, the
-- one for the uplink and the list of free ids, which share their links.
import MacRlcSplit.Lib.Links
import MacRlcSplit.Lib.Run
import Mathlib.Data.List.Perm.Subperm

namespace MacRlcSplit.Mac

open Lib Function List Option

/-! ## The functions -/

def NUMBER_OF_UE_MAX : Nat := 16

/-- The fields of `UE_list_t` that hold its lists, and the RNTIs that a UE is found by. -/
structure UeList where
  next : Nat → Int
  head : Int
  next_ul : Nat → Int
  head_ul : Int
  avail : Int
  num_UEs : Int
  active : Nat → Bool
  pCC_id : Nat → Nat
  /-- In `UE_template`, by component carrier and UE. -/
  rnti : Nat → Nat → Nat

namespace UeList

/-- What `mac_top_init` leaves. -/
def init : UeList where
  next i := if i < NUMBER_OF_UE_MAX - 1 then i + 1 else -1
  head := -1
  next_ul i := if i < NUMBER_OF_UE_MAX - 1 then i + 1 else -1
  head_ul := -1
  avail := 0
  num_UEs := 0
  active _ := false
  pCC_id _ := 0
  rnti _ _ := 0

/-- A loop over one of the lists. One with more turns than there are ids never ends. -/
def visit (next : Nat → Int) (head : Int) (p : Nat → Bool) : Option (Option (Int × Nat)) :=
  walk next p (NUMBER_OF_UE_MAX + 1) head head

/-- `find_UE_id`, with none for -1. -/
def findUeId (s : UeList) (rnti : Nat) : Option (Option Nat) :=
  (visit s.next s.head fun i => s.rnti (s.pCC_id i) i == rnti).map (Option.map Prod.snd)

/-- `add_new_ue`, with none for -1. -/
def addNewUe (s : UeList) (cc_id rnti : Nat) : Option (Option Nat × UeList) :=
  if s.avail ≥ 0 then
    let UE_id := s.avail.toNat
    if UE_id < NUMBER_OF_UE_MAX then
      some (some UE_id,
        { next := update s.next UE_id s.head
          head := UE_id
          next_ul := update s.next_ul UE_id s.head_ul
          head_ul := UE_id
          avail := s.next UE_id
          num_UEs := s.num_UEs + 1
          active := update s.active UE_id true
          pCC_id := update s.pCC_id UE_id cc_id
          rnti := update s.rnti cc_id (update (s.rnti cc_id) UE_id rnti) })
    else none
  else some (none, s)

/-- The loop that takes a UE out of a list, with none inside if the UE is not there. -/
def unlink (next : Nat → Int) (head : Int) (UE_id : Nat) : Option (Option ((Nat → Int) × Int)) :=
  (visit next head (· == UE_id)).map (Option.map fun x =>
    if (x.2 : Int) = head then (next, next x.2)
    else (update next x.1.toNat (next x.2), head))

/-- `rrc_mac_remove_ue`. A UE that is not in the lists stops the process. -/
def rrcMacRemoveUe (s : UeList) (rnti : Nat) : Option UeList := (s.findUeId rnti).bind fun found =>
    match found with
    | none => some s
    | some UE_id =>
      let pCC_id := s.pCC_id UE_id
      let s := { s with rnti := update s.rnti pCC_id (update (s.rnti pCC_id) UE_id 0) }
      (unlink s.next s.head UE_id).bind fun dl =>
        let s := match dl with
          | none => s
          | some links =>
            { s with
              next := update links.1 UE_id s.avail
              head := links.2
              avail := UE_id
              active := update s.active UE_id false
              num_UEs := s.num_UEs - 1 }
        (unlink s.next_ul s.head_ul UE_id).bind fun ul =>
          let s := match ul with
            | none => s
            | some links => { s with next_ul := update links.1 UE_id s.avail, head_ul := links.2 }
          if dl.isNone ∧ ul.isNone then none else some s

/-- The node before another one, the node itself if it is the first, and -1 if it is not in the
list. -/
def prev (next : Nat → Int) (head : Int) (node : Nat) : Option Int :=
  if node = head then some node
  else (visit next head fun j => next j == node).map fun found =>
    (found.map fun x => (x.2 : Int)).getD (-1)

/-- `swap_UEs` on one of the two lists. -/
def swapNodes (next : Nat → Int) (head : Int) (nodei nodej : Nat) : Option ((Nat → Int) × Int) :=
  (prev next head nodei).bind fun prev_i =>
    (prev next head nodej).bind fun prev_j =>
      if prev_i < 0 ∨ prev_j < 0 then none
      else
        let next_i := next nodei
        let next_j := next nodej
        if next_i = nodej then
          let next := update (update next nodei next_j) nodej nodei
          some (if nodei = head then (next, nodej) else (update next prev_i.toNat nodej, head))
        else if next_j = nodei then
          let next := update (update next nodej next_i) nodei nodej
          some (if nodej = head then (next, nodei) else (update next prev_j.toNat nodei, head))
        else
          let next := update (update next nodej next_i) nodei next_j
          some (if nodei = head then (update next prev_j.toNat nodei, nodej)
            else if nodej = head then (update next prev_i.toNat nodej, nodei)
            else (update (update next prev_i.toNat nodej) prev_j.toNat nodei, head))

def swapUEs (s : UeList) (nodei nodej : Nat) (ul_flag : Bool) : Option UeList :=
  if ul_flag then
    (swapNodes s.next_ul s.head_ul nodei nodej).map fun x =>
      { s with next_ul := x.1, head_ul := x.2 }
  else
    (swapNodes s.next s.head nodei nodej).map fun x => { s with next := x.1, head := x.2 }

end UeList

/-! ## What the functions do to a list -/

section Links

variable {next : Nat → Int} {head : Int} {l r : List Nat} {i j : Nat}

theorem visit_finds (hl : Linked next head l) (hlen : l.length ≤ NUMBER_OF_UE_MAX)
    (p : Nat → Bool) : (UeList.visit next head p).map (Option.map Prod.snd) = some (l.find? p) :=
  hl.walk p (Nat.lt_succ_of_le hlen) head

theorem unlink_first (hl : Linked next head (i :: r)) :
    UeList.unlink next head i = some (some (next, next i)) := by
  obtain ⟨rfl, -⟩ := linked_cons.1 hl
  have hpos : ¬ (i : Int) < 0 := by omega
  simp [UeList.unlink, UeList.visit, walk, hpos]

theorem unlink_after {q : Nat} (hl : Linked next head (l ++ q :: i :: r))
    (hnodup : (l ++ q :: i :: r).Nodup) (hlen : (l ++ q :: i :: r).length ≤ NUMBER_OF_UE_MAX) :
    UeList.unlink next head i = some (some (update next q (next i), head)) := by
  have hbefore : ∀ k ∈ l ++ [q], (k == i) = false := by
    intro k hk
    have hne : k ≠ i := by
      rw [append_cons, nodup_append] at hnodup
      exact hnodup.2.2 k hk i mem_cons_self
    simpa using hne
  have hhead : (i : Int) ≠ head := by
    intro heq
    have hq : next q = i := by
      obtain ⟨m, -, hm⟩ := linked_append.1 hl
      exact (linked_cons.1 (linked_cons.1 hm).2).1
    exact hl.succ_ne_head hnodup (by simp) (by omega) (hq.trans heq)
  have hwalk : walk next (· == i) (NUMBER_OF_UE_MAX + 1) head head = some (some ((q : Int), i)) :=
    hl.walk_prev (by simp) hbefore (by simp at hlen; omega) head
  simp [UeList.unlink, UeList.visit, hwalk, hhead]

/-- Taking a UE out of a list leaves the others in their order, and the links of nodes elsewhere. -/
theorem unlink_erases (hl : Linked next head l) (hnodup : l.Nodup)
    (hlen : l.length ≤ NUMBER_OF_UE_MAX) (hi : i ∈ l) :
    ∃ next' head', UeList.unlink next head i = some (some (next', head')) ∧
      Linked next' head' (l.erase i) ∧ ∀ k ∉ l, next' k = next k := by
  obtain ⟨a, r, hnot, rfl, herase⟩ := exists_erase_eq hi
  rw [herase]
  obtain rfl | ⟨a, q, rfl⟩ := a.eq_nil_or_concat'
  · exact ⟨next, next i, unlink_first hl, (linked_cons.1 hl).2, fun _ _ => rfl⟩
  · rw [append_assoc] at hl hnodup hlen ⊢
    refine ⟨_, head, unlink_after hl hnodup hlen, ?_, ?_⟩
    · simpa using hl.unlink hnodup
    · intro k hk
      exact update_of_ne (fun heq => hk (by simp [heq])) _ _

theorem prev_finds (hl : Linked next head l) (hlen : l.length ≤ NUMBER_OF_UE_MAX) (hi : i ∈ l) :
    ∃ p ∈ l, UeList.prev next head i = some (p : Int) ∧ (head = i ∨ next p = i) := by
  by_cases hhead : head = i
  · exact ⟨i, hi, if_pos hhead.symm, .inl hhead⟩
  obtain ⟨q, hq, hqi⟩ := (hl.pred hi).resolve_left hhead
  have hfind := visit_finds hl hlen fun j => next j == i
  obtain ⟨p, hp⟩ : ∃ p, l.find? (fun j => next j == i) = some p :=
    isSome_iff_exists.1 (find?_isSome.2 ⟨q, hq, by simpa using hqi⟩)
  rw [hp] at hfind
  obtain ⟨found, hvisit, hfound⟩ := map_eq_some_iff.1 hfind
  obtain ⟨x, rfl, rfl⟩ := map_eq_some_iff.1 hfound
  refine ⟨x.2, mem_of_find?_eq_some hp, ?_, .inr (by simpa using find?_some hp)⟩
  rw [UeList.prev, if_neg (Ne.symm hhead), hvisit]
  rfl

theorem rename_swap (i j : Nat) (n : Int) :
    rename (Equiv.swap i j) n = if n = i then (j : Int) else if n = j then (i : Int) else n := by
  by_cases hn : n < 0
  · rw [rename, if_pos hn, if_neg (by omega), if_neg (by omega)]
  obtain ⟨m, rfl⟩ : ∃ m : Nat, n = m := ⟨n.toNat, by omega⟩
  rw [rename, if_neg hn, Int.toNat_natCast, Equiv.swap_apply_def]
  simp only [Int.natCast_inj]
  split
  · rfl
  split
  · rfl
  · rfl

theorem swapNodes_renames (hl : Linked next head l) (hnodup : l.Nodup)
    (hlen : l.length ≤ NUMBER_OF_UE_MAX) (hi : i ∈ l) (hj : j ∈ l) (hij : i ≠ j) :
    ∃ next' head', UeList.swapNodes next head i j = some (next', head') ∧
      head' = rename (Equiv.swap i j) head ∧
      (∀ k ∈ l, next' (Equiv.swap i j k) = rename (Equiv.swap i j) (next k)) ∧
      ∀ k ∉ l, next' k = next k := by
  obtain ⟨p, hp, hprev_i, hpi⟩ := prev_finds hl hlen hi
  obtain ⟨q, hq, hprev_j, hqj⟩ := prev_finds hl hlen hj
  have hhead : 0 ≤ head := by
    obtain h | ⟨k, -, -⟩ := hl.pred hi
    · omega
    · by_contra hneg
      rw [hl.head_neg (by omega)] at hi
      cases hi
  have hfirst : ∀ k ∈ l, next k ≠ head := fun k hk => hl.succ_ne_head hnodup hk hhead
  have hinj : ∀ k ∈ l, ∀ m ∈ l, ∀ n : Nat, next k = n → next m = n → k = m :=
    fun k hk m hm n hkn hmn => hl.succ_inj hnodup hk hm hkn hmn
  have hself : ∀ k ∈ l, next k ≠ k := by
    intro k hk heq
    have := hl.idxOf_succ hnodup hk heq
    omega
  have hcycle : next i = j → next j ≠ i := by
    intro h1 h2
    have h3 := hl.idxOf_succ hnodup hi h1
    have h4 := hl.idxOf_succ hnodup hj h2
    omega
  have hother : ∀ k ∉ l, k ≠ i ∧ k ≠ j ∧ k ≠ p ∧ k ≠ q := by
    intro k hk
    exact ⟨(ne_of_mem_of_not_mem hi hk).symm, (ne_of_mem_of_not_mem hj hk).symm,
      (ne_of_mem_of_not_mem hp hk).symm, (ne_of_mem_of_not_mem hq hk).symm⟩
  rw [UeList.swapNodes, hprev_i, bind_some, hprev_j, bind_some, if_neg (by omega)]
  simp only [rename_swap, Int.toNat_natCast, Equiv.swap_apply_def]
  clear hl hnodup hlen hprev_i hprev_j
  split
  · -- `i` right before `j`
    split <;> exact ⟨_, _, rfl, by grind, by grind, fun k hk => by simp [hother k hk]⟩
  split
  · -- `j` right before `i`
    split <;> exact ⟨_, _, rfl, by grind, by grind, fun k hk => by simp [hother k hk]⟩
  · -- others between them
    split
    · exact ⟨_, _, rfl, by grind, by grind, fun k hk => by simp [hother k hk]⟩
    split <;> exact ⟨_, _, rfl, by grind, by grind, fun k hk => by simp [hother k hk]⟩

end Links

/-! ## The lists that the calls make -/

inductive UeListCall where
  | addNewUe (cc_id rnti : Nat)
  | rrcMacRemoveUe (rnti : Nat)
  | swapUEs (nodei nodej : Nat) (ul_flag : Bool)

/-- The UEs in the order of each list with their RNTIs, and the ids that are free. -/
structure Lists where
  dl : List Nat
  ul : List Nat
  av : List Nat
  rnti : Nat → Nat

namespace Lists

def init : Lists where
  dl := []
  ul := []
  av := List.range NUMBER_OF_UE_MAX
  rnti _ := 0

/-- What a call is to make of the lists: a new UE takes the first free id and comes first in both
lists, a UE that goes leaves both and frees its id, and a swap exchanges two UEs in one list. -/
def after (L : Lists) : UeListCall → Lists
  | .addNewUe _ rnti =>
    match L.av with
    | [] => L
    | UE_id :: av =>
        { dl := UE_id :: L.dl, ul := UE_id :: L.ul, av := av, rnti := update L.rnti UE_id rnti }
  | .rrcMacRemoveUe rnti =>
    match L.dl.find? fun i => L.rnti i == rnti with
    | none => L
    | some UE_id => { L with dl := L.dl.erase UE_id, ul := L.ul.erase UE_id, av := UE_id :: L.av }
  | .swapUEs nodei nodej ul_flag =>
    if ul_flag then { L with ul := L.ul.map (Equiv.swap nodei nodej) }
    else { L with dl := L.dl.map (Equiv.swap nodei nodej) }

/-- Two UEs are swapped only if they are different and listed. -/
def Listed (L : Lists) : UeListCall → Prop
  | .swapUEs nodei nodej _ => nodei ≠ nodej ∧ nodei ∈ L.dl ∧ nodej ∈ L.dl
  | _ => True

instance (L : Lists) (call : UeListCall) : Decidable (L.Listed call) := by
  cases call <;> unfold Listed <;> infer_instance

/-- Both lists have the same UEs, and with the free ids they have all ids once. -/
structure Proper (L : Lists) : Prop where
  dl : L.dl.Nodup
  ul : L.ul.Nodup
  av : L.av.Nodup
  same : ∀ i, i ∈ L.ul ↔ i ∈ L.dl
  free : ∀ i, i ∈ L.av ↔ i < NUMBER_OF_UE_MAX ∧ i ∉ L.dl
  bound : ∀ i ∈ L.dl, i < NUMBER_OF_UE_MAX

variable {L : Lists}

theorem proper_init : init.Proper where
  dl := nodup_nil
  ul := nodup_nil
  av := nodup_range
  same _ := Iff.rfl
  free i := by simp [init]
  bound := nofun

theorem mem_map_swap {l : List Nat} {i j : Nat} (hi : i ∈ l) (hj : j ∈ l)
    (k : Nat) : k ∈ l.map (Equiv.swap i j) ↔ k ∈ l := by
  have hswap : ∀ m ∈ l, Equiv.swap i j m ∈ l := by
    intro m hm
    rw [Equiv.swap_apply_def]
    split
    · exact hj
    split
    · exact hi
    · exact hm
  rw [List.mem_map]
  constructor
  · rintro ⟨m, hm, rfl⟩
    exact hswap m hm
  · intro hk
    exact ⟨Equiv.swap i j k, hswap k hk, Equiv.swap_apply_self _ _ _⟩

theorem Proper.add (h : L.Proper) {UE_id : Nat} {av : List Nat} (hav : L.av = UE_id :: av)
    (rnti : Nat → Nat) :
    Proper { dl := UE_id :: L.dl, ul := UE_id :: L.ul, av := av, rnti := rnti } := by
  obtain ⟨hlt, hnot⟩ := (h.free UE_id).1 (by simp [hav])
  have hnodup := h.av
  rw [hav, nodup_cons] at hnodup
  refine ⟨nodup_cons.2 ⟨hnot, h.dl⟩, nodup_cons.2 ⟨mt (h.same UE_id).1 hnot, h.ul⟩, hnodup.2,
    fun i => ?_, fun i => ?_, forall_mem_cons.2 ⟨hlt, h.bound⟩⟩
  · rw [mem_cons, mem_cons, h.same]
  · have hfree := h.free i
    rw [hav, mem_cons] at hfree
    rw [mem_cons, not_or]
    grind

theorem Proper.remove (h : L.Proper) {UE_id : Nat} (hmem : UE_id ∈ L.dl) (rnti : Nat → Nat) :
    Proper { dl := L.dl.erase UE_id, ul := L.ul.erase UE_id, av := UE_id :: L.av, rnti :=
      rnti } := by
  have hnot : UE_id ∉ L.av := fun hfree => ((h.free UE_id).1 hfree).2 hmem
  refine ⟨h.dl.erase _, h.ul.erase _, nodup_cons.2 ⟨hnot, h.av⟩, fun i => ?_, fun i => ?_,
    fun i hi => ?_⟩
  · rw [h.dl.mem_erase_iff, h.ul.mem_erase_iff, h.same]
  · have hlt := h.bound UE_id hmem
    rw [mem_cons, h.free, h.dl.mem_erase_iff]
    grind
  · exact h.bound i (mem_of_mem_erase hi)

theorem Proper.step (h : L.Proper) {call : UeListCall}
    (listed : L.Listed call) : (L.after call).Proper := by
  cases call with
  | addNewUe cc_id rnti =>
    rw [after]
    split
    · exact h
    · next hav => exact h.add hav _
  | rrcMacRemoveUe rnti =>
    rw [after]
    split
    · exact h
    · next hfind => exact h.remove (mem_of_find?_eq_some hfind) _
  | swapUEs nodei nodej ul_flag =>
    obtain ⟨-, hi, hj⟩ := listed
    cases ul_flag with
    | true =>
      have hmem := mem_map_swap ((h.same nodei).2 hi) ((h.same nodej).2 hj)
      exact ⟨h.dl, h.ul.map (Equiv.swap nodei nodej).injective, h.av, fun k =>
        (hmem k).trans (h.same k), h.free, h.bound⟩
    | false =>
      have hmem := mem_map_swap hi hj
      exact ⟨h.dl.map (Equiv.swap nodei nodej).injective,
        h.ul, h.av, fun k => (h.same k).trans (hmem k).symm,
        fun k => (h.free k).trans (and_congr_right fun _ => not_congr (hmem k).symm), fun k hk =>
          h.bound k ((hmem k).1 hk)⟩

theorem length_le {l : List Nat} (hnodup : l.Nodup) (hlt : ∀ i ∈ l, i < NUMBER_OF_UE_MAX) :
    l.length ≤ NUMBER_OF_UE_MAX := by
  have hsub : l ⊆ List.range NUMBER_OF_UE_MAX := fun i hi => mem_range.2 (hlt i hi)
  simpa using (subperm_of_subset hnodup hsub).length_le

theorem Proper.dl_length (h : L.Proper) : L.dl.length ≤ NUMBER_OF_UE_MAX := length_le h.dl h.bound

theorem Proper.ul_length (h : L.Proper) : L.ul.length ≤ NUMBER_OF_UE_MAX :=
  length_le h.ul fun i hi => h.bound i ((h.same i).1 hi)

end Lists

/-! ## The arrays -/

/-- The lists are in the arrays. -/
structure UeList.Holds (s : UeList) (L : Lists) : Prop where
  dl : Linked s.next s.head L.dl
  ul : Linked s.next_ul s.head_ul L.ul
  av : Linked s.next s.avail L.av
  active : ∀ i, s.active i = true ↔ i ∈ L.dl
  rnti : ∀ i ∈ L.dl, s.rnti (s.pCC_id i) i = L.rnti i
  num_UEs : s.num_UEs = L.dl.length

namespace UeList

def step (s : UeList) : UeListCall → Option UeList
  | .addNewUe cc_id rnti => (s.addNewUe cc_id rnti).map Prod.snd
  | .rrcMacRemoveUe rnti => s.rrcMacRemoveUe rnti
  | .swapUEs nodei nodej ul_flag => s.swapUEs nodei nodej ul_flag

variable {s : UeList} {L : Lists}

theorem holds_init : init.Holds Lists.init where
  dl := by simp [init, Lists.init]
  ul := by simp [init, Lists.init]
  av := by simp [init, Lists.init, NUMBER_OF_UE_MAX, List.range, List.range.loop]
  active := by simp [init, Lists.init]
  rnti := nofun
  num_UEs := rfl

theorem Holds.addNewUe (h : s.Holds L) (proper : L.Proper) (cc_id rnti : Nat) :
    ∃ t, s.step (.addNewUe cc_id rnti) = some t ∧ t.Holds (L.after (.addNewUe cc_id rnti)) := by
  simp only [step, UeList.addNewUe, Lists.after]
  have hav := h.av
  cases hfree : L.av with
  | nil =>
    rw [hfree, linked_nil] at hav
    rw [if_neg (by omega)]
    exact ⟨s, rfl, h⟩
  | cons UE_id av =>
    obtain ⟨hlt, hnot⟩ := (proper.free UE_id).1 (by simp [hfree])
    have hnodup := proper.av
    rw [hfree, nodup_cons] at hnodup
    rw [hfree] at hav
    obtain ⟨hhead, hrest⟩ := linked_cons.1 hav
    rw [hhead, if_pos (by omega)]
    simp only [Int.toNat_natCast, if_pos hlt, map_some]
    refine ⟨_, rfl, ?_, ?_, hrest.update hnodup.1 s.head, fun i => ?_, fun i hi => ?_, ?_⟩
    · simpa using h.dl.update hnot s.head
    · simpa using h.ul.update (mt (proper.same UE_id).1 hnot) s.head_ul
    · by_cases hi : i = UE_id
      · simp [hi]
      · simp [hi, h.active]
    · by_cases heq : i = UE_id
      · simp [heq]
      · have hmem : i ∈ L.dl := (mem_cons.1 hi).resolve_left heq
        have hrnti := h.rnti i hmem
        by_cases hcc : s.pCC_id i = cc_id <;> simp [heq, hcc] <;> simpa [hcc] using hrnti
    · simp [h.num_UEs]

/-- The free ids are not in the list of the downlink, so that their links are as they were. -/
theorem Holds.free (h : s.Holds L) (proper : L.Proper) {next' : Nat → Int}
    (hkeep : ∀ k ∉ L.dl, next' k = s.next k) : Linked next' s.avail L.av :=
  h.av.congr fun k hk => hkeep k ((proper.free k).1 hk).2

theorem Holds.findUeId (h : s.Holds L) (proper : L.Proper) (rnti : Nat) :
    s.findUeId rnti = some (L.dl.find? fun i => L.rnti i == rnti) := by
  rw [UeList.findUeId, visit_finds h.dl proper.dl_length, ← head?_filter, ← head?_filter,
    filter_congr fun i hi => by rw [h.rnti i hi]]

theorem Holds.rrcMacRemoveUe (h : s.Holds L) (proper : L.Proper) (rnti : Nat) :
    ∃ t, s.step (.rrcMacRemoveUe rnti) = some t ∧ t.Holds (L.after (.rrcMacRemoveUe rnti)) := by
  simp only [step, UeList.rrcMacRemoveUe, Lists.after, h.findUeId proper, bind_some]
  cases hfind : L.dl.find? fun i => L.rnti i == rnti with
  | none => exact ⟨s, rfl, h⟩
  | some UE_id =>
    have hdl : UE_id ∈ L.dl := mem_of_find?_eq_some hfind
    have hul : UE_id ∈ L.ul := (proper.same UE_id).2 hdl
    have hnot : UE_id ∉ L.av := fun hfree => ((proper.free UE_id).1 hfree).2 hdl
    obtain ⟨next', head', hunlink, hlinked, hkeep⟩ :=
      unlink_erases h.dl proper.dl proper.dl_length hdl
    obtain ⟨next_ul', head_ul', hunlink_ul, hlinked_ul, -⟩ :=
      unlink_erases h.ul proper.ul proper.ul_length hul
    simp only [hunlink, hunlink_ul, bind_some, isNone_some, Bool.false_eq_true, false_and, if_false]
    refine ⟨_, rfl, hlinked.update proper.dl.not_mem_erase _,
      hlinked_ul.update proper.ul.not_mem_erase _, ?_, fun i => ?_, fun i hi => ?_, ?_⟩
    · simpa using (h.free proper hkeep).update hnot s.avail
    · rw [proper.dl.mem_erase_iff, ← h.active]
      by_cases hi : i = UE_id
      · simp [hi]
      · simp [hi]
    · obtain ⟨hne, hmem⟩ := proper.dl.mem_erase_iff.1 hi
      rw [← h.rnti i hmem]
      by_cases hcc : s.pCC_id i = s.pCC_id UE_id <;> simp [hne, hcc]
    · have := length_pos_of_mem hdl
      simp only [h.num_UEs, length_erase_of_mem hdl]
      omega

theorem Holds.swapUEs (h : s.Holds L) (proper : L.Proper) {nodei nodej : Nat} (ul_flag : Bool)
    (listed : L.Listed (.swapUEs nodei nodej ul_flag)) :
    ∃ t, s.step (.swapUEs nodei nodej ul_flag) = some t ∧
    t.Holds (L.after (.swapUEs nodei nodej ul_flag)) := by
  obtain ⟨hij, hi, hj⟩ := listed
  cases ul_flag with
  | true =>
    obtain ⟨next', head', hswap, rfl, hnext, -⟩ := swapNodes_renames h.ul proper.ul proper.ul_length
      ((proper.same nodei).2 hi) ((proper.same nodej).2 hj) hij
    simp only [step, UeList.swapUEs, Lists.after, hswap, if_true, map_some]
    exact ⟨_, rfl, h.dl, h.ul.rename _ hnext, h.av, h.active, h.rnti, h.num_UEs⟩
  | false =>
    obtain ⟨next', head', hswap, rfl, hnext, hkeep⟩ :=
      swapNodes_renames h.dl proper.dl proper.dl_length hi hj hij
    have hmem := Lists.mem_map_swap hi hj
    simp only [step, UeList.swapUEs, Lists.after, hswap, Bool.false_eq_true, if_false, map_some]
    exact ⟨_, rfl, h.dl.rename _ hnext, h.ul, h.free proper hkeep,
      fun k => (h.active k).trans (hmem k).symm,
      fun k hk => h.rnti k ((hmem k).1 hk), by simp [h.num_UEs]⟩

/-- A call on UEs of the lists goes through, and the arrays hold the lists after it. -/
theorem Holds.step (h : s.Holds L) (proper : L.Proper) {call : UeListCall}
    (listed : L.Listed call) : ∃ t, s.step call = some t ∧ t.Holds (L.after call) := by
  cases call with
  | addNewUe cc_id rnti => exact h.addNewUe proper cc_id rnti
  | rrcMacRemoveUe rnti => exact h.rrcMacRemoveUe proper rnti
  | swapUEs nodei nodej ul_flag => exact h.swapUEs proper ul_flag listed

theorem Holds.run (h : s.Holds L) (proper : L.Proper) {calls : List UeListCall}
    (listed : Meets (fun L call => some (L.after call)) Lists.Listed L calls) :
    ∃ t, Lib.run UeList.step s calls = some t ∧ t.Holds (calls.foldl Lists.after L) ∧
    (calls.foldl Lists.after L).Proper := by
  induction calls generalizing s L with
  | nil => exact ⟨s, rfl, h, proper⟩
  | cons call calls ih =>
    obtain ⟨t, ht, hLt⟩ := h.step proper listed.1
    obtain ⟨u, hu, hLu⟩ := ih hLt (proper.step listed.1) (listed.2 _ rfl)
    exact ⟨u, run_cons.2 ⟨t, ht, hu⟩, hLu⟩

/-- After any calls, the arrays hold the lists that the calls make: the downlink and the uplink list
have each active UE once, and the list of free ids has the others. -/
theorem the_lists_hold_the_active_ues (calls : List UeListCall)
    (listed : Meets (fun L call => some (L.after call)) Lists.Listed Lists.init calls) :
    ∃ s, run UeList.step init calls = some s ∧ s.Holds (calls.foldl Lists.after Lists.init) ∧
      (calls.foldl Lists.after Lists.init).Proper :=
  holds_init.run Lists.proper_init listed

def threeUes : List UeListCall :=
  [.addNewUe 0 0x1111, .addNewUe 0 0x2222, .addNewUe 0 0x3333, .swapUEs 1 2 false,
    .rrcMacRemoveUe 0x1111]

theorem the_lists_hold_two_of_three_ues : ∃ s, run UeList.step init threeUes = some s ∧
    s.num_UEs = 2 ∧ Linked s.next s.head [1, 2] ∧ Linked s.next_ul s.head_ul [2, 1] ∧
    Linked s.next s.avail (0 :: List.range' 3 13) := by
  obtain ⟨s, hs, holds, -⟩ := the_lists_hold_the_active_ues threeUes (by decide +kernel)
  exact ⟨s, hs, holds.num_UEs, holds.dl, holds.ul, holds.av⟩

end UeList

end MacRlcSplit.Mac
