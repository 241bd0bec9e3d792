import ZodModules.Order.Rearranging
import ZodModules.Proofs.Data.Listings

/-!
# What a rearrangement keeps

A rearrangement said by the positions that its items come from: in front those where a name of the
order stands for the first time, by where the order has that name first, and behind them all others
as they were. Each position comes once, so no item is lost or repeated, whatever names there are
twice.
-/

namespace ZodModules.DeclarationOrder

variable {α : Type} {name : α → String}

/-- A name of the order stands at a position, and at no earlier one. -/
def Leads (order names : List String) (i : Nat) : Prop :=
  ∃ n ∈ order, names[i]? = some n ∧ n ∉ names.take i

instance (order names : List String) : DecidablePred (Leads order names) :=
  fun i => inferInstanceAs (Decidable (∃ n ∈ order, names[i]? = some n ∧ n ∉ names.take i))

/-- The order has the name at one position before it has the name at another. -/
def NamedBefore (order names : List String) (i j : Nat) : Prop :=
  ∃ a b, names[i]? = some a ∧ names[j]? = some b ∧ order.idxOf a < order.idxOf b

/-- The positions of some names, rearranged by an order into those in front and those behind. -/
structure Arranged (order names : List String) (front behind : List Nat) : Prop where
  perm : (front ++ behind).Perm (List.range names.length)
  leads : ∀ i, i ∈ front ↔ Leads order names i
  named : front.Pairwise (NamedBefore order names)
  ascending : behind.Pairwise (· < ·)

/-- A list has the items of another one, rearranged by an order of names. -/
def Arranges (order : List String) (name : α → String) (items found : List α) : Prop :=
  ∃ front behind, Arranged order (items.map name) front behind ∧
    found = (front ++ behind).filterMap (items[·]?)

section Positions

variable {order names : List String}

theorem leads_iff {i : Nat} : Leads order names i ↔ ∃ n ∈ order, names.idxOf? n = some i := by
  unfold Leads
  refine exists_congr fun n => and_congr_right fun _ => ?_
  simp only [List.idxOf?_eq_some_iff, List.getElem?_eq_some_iff, List.mem_take_iff_getElem]
  grind

theorem Leads.lt_length {i : Nat} (leads : Leads order names i) : i < names.length := by
  obtain ⟨n, -, stands, -⟩ := leads
  exact (List.getElem?_eq_some_iff.1 stands).1

/-- A further name stands at a position of its own and changes nothing before it. -/
theorem leads_concat_of_lt {n : String} {i : Nat} (before : i < names.length) :
    Leads order (names ++ [n]) i ↔ Leads order names i := by
  unfold Leads
  rw [List.getElem?_append_left before, List.take_append_of_le_length (Nat.le_of_lt before)]

theorem leads_concat_length {n : String} :
    Leads order (names ++ [n]) names.length ↔ n ∈ order ∧ n ∉ names := by
  unfold Leads
  simp only [List.getElem?_concat_length, List.take_left, Option.some.injEq]
  grind

/-- In a list without its repetitions the names stand as the list has them first. -/
theorem pairwise_eraseDups (order : List String) :
    order.eraseDups.Pairwise fun a b => order.idxOf a < order.idxOf b := by
  induction order using List.reverseRecOn with
  | nil => simp
  | append_singleton order last ih =>
    have earlier {n : String} (member : n ∈ order.eraseDups) :
        (order ++ [last]).idxOf n = order.idxOf n :=
      List.idxOf_append_of_mem (List.mem_eraseDups.1 member)
    have kept : order.eraseDups.Pairwise fun a b =>
        (order ++ [last]).idxOf a < (order ++ [last]).idxOf b := by
      refine ih.imp_of_mem fun first second before => ?_
      rwa [earlier first, earlier second]
    rw [Listing.eraseDups_concat]
    split
    · exact kept
    · rename_i fresh
      refine List.pairwise_append.2 ⟨kept, List.pairwise_singleton _ _, fun n first m second => ?_⟩
      rw [List.mem_singleton.1 second, earlier first, List.idxOf_append_of_notMem fresh]
      have inside := List.idxOf_lt_length_iff.2 (List.mem_eraseDups.1 first)
      omega

theorem NamedBefore.asymm {i j : Nat} (before : NamedBefore order names i j) :
    ¬ NamedBefore order names j i := by
  rintro ⟨b, a, stands_b, stands_a, after⟩
  obtain ⟨a', b', stands_a', stands_b', before⟩ := before
  cases stands_a.symm.trans stands_a'
  cases stands_b.symm.trans stands_b'
  omega

/-- There is one way to rearrange positions. -/
theorem Arranged.unique {front behind front' behind' : List Nat}
    (arranged : Arranged order names front behind)
    (arranged' : Arranged order names front' behind') : front = front' ∧ behind = behind' := by
  have nodup := List.nodup_append.1 (arranged.perm.nodup_iff.2 List.nodup_range)
  have nodup' := List.nodup_append.1 (arranged'.perm.nodup_iff.2 List.nodup_range)
  have same_front : front.Perm front' :=
    (List.perm_ext_iff_of_nodup nodup.1 nodup'.1).2 fun i =>
      (arranged.leads i).trans (arranged'.leads i).symm
  have same_behind : behind.Perm behind' := by
    have both := arranged.perm.trans arranged'.perm.symm
    exact (List.perm_append_left_iff front').1 ((same_front.symm.append_right behind).trans both)
  constructor
  · exact same_front.eq_of_pairwise (fun _ _ _ _ before after => absurd after before.asymm)
      arranged.named arranged'.named
  · exact same_behind.eq_of_pairwise (fun _ _ _ _ less more => absurd less (Nat.lt_asymm more))
      arranged.ascending arranged'.ascending

/-- The positions in front are found name by name, those behind are all others. -/
theorem arranged_positions (order names : List String) :
    Arranged order names (order.eraseDups.filterMap names.idxOf?)
      ((List.range names.length).filter fun i => ¬ Leads order names i) := by
  have leads (i : Nat) : i ∈ order.eraseDups.filterMap names.idxOf? ↔ Leads order names i := by
    simp only [List.mem_filterMap, List.mem_eraseDups, leads_iff]
  have named : (order.eraseDups.filterMap names.idxOf?).Pairwise (NamedBefore order names) := by
    refine List.pairwise_filterMap.2 ((pairwise_eraseDups order).imp ?_)
    intro n m before i found j found'
    obtain ⟨bound, stands, -⟩ := List.idxOf?_eq_some_iff.1 found
    obtain ⟨bound', stands', -⟩ := List.idxOf?_eq_some_iff.1 found'
    exact ⟨_, _, List.getElem?_eq_some_iff.2 ⟨bound, stands⟩,
      List.getElem?_eq_some_iff.2 ⟨bound', stands'⟩, before⟩
  refine ⟨?_, leads, named, List.pairwise_lt_range.filter _⟩
  have distinct : (order.eraseDups.filterMap names.idxOf?).Nodup :=
    named.imp fun before => by
      rintro rfl
      exact before.asymm before
  have apart : (order.eraseDups.filterMap names.idxOf? ++
      (List.range names.length).filter fun i => ¬ Leads order names i).Nodup := by
    refine List.nodup_append.2 ⟨distinct, List.nodup_range.filter _, ?_⟩
    rintro i first _ second rfl
    simp [(leads i).1 first] at second
  refine (List.perm_ext_iff_of_nodup apart List.nodup_range).2 fun i => ?_
  have bound : Leads order names i → i < names.length := Leads.lt_length
  rw [List.mem_append, leads, List.mem_filter, List.mem_range]
  by_cases lead : Leads order names i <;> simp [lead, bound]

end Positions

section Items

variable {order : List String} {items : List α}

theorem find?_name_eq (n : String) :
    items.find? (name · == n) = ((items.map name).idxOf? n).bind (items[·]?) := by
  induction items with
  | nil => rfl
  | cons item rest ih =>
    rw [List.find?_cons, List.map_cons, List.idxOf?_cons]
    cases name item == n with
    | true => simp
    | false =>
      rw [ih, if_neg Bool.false_ne_true, Option.bind_map]
      rfl

/-- A further item is left over unless it is the first with a name that is still to be placed. -/
theorem unplaced_concat {names : List String} (nodup : names.Nodup) (items : List α) (item : α) :
    unplaced name names (items ++ [item]) = unplaced name names items ++
      if name item ∈ names ∧ name item ∉ items.map name then [] else [item] := by
  -- On the names as well: each item read uses up its name for the further one.
  induction items generalizing names with
  | nil => by_cases taken : name item ∈ names <;> simp [unplaced, taken]
  | cons first rest ih =>
    rw [List.cons_append, unplaced, unplaced]
    by_cases taken : name first ∈ names
    · have same : name item ∈ names.erase (name first) ∧ name item ∉ rest.map name ↔
          name item ∈ names ∧ name item ∉ (first :: rest).map name := by
        rw [nodup.mem_erase_iff, List.map_cons, List.mem_cons, not_or]
        tauto
      simp only [List.contains_iff_mem, taken, if_true, ih (nodup.erase _), same]
    · have same : name item ∈ names ∧ name item ∉ rest.map name ↔
          name item ∈ names ∧ name item ∉ (first :: rest).map name := by
        rw [List.map_cons, List.mem_cons, not_or]
        refine and_congr_right fun present => (and_iff_right ?_).symm
        exact fun equal => taken (equal ▸ present)
      simp only [List.contains_iff_mem, taken, if_false, ih nodup, same, List.cons_append]

theorem filterMap_range (items : List α) :
    (List.range items.length).filterMap (items[·]?) = items := by
  induction items using List.reverseRecOn with
  | nil => rfl
  | append_singleton items item ih =>
    have earlier : (List.range items.length).filterMap ((items ++ [item])[·]?) =
        (List.range items.length).filterMap (items[·]?) :=
      List.filterMap_congr fun i member => List.getElem?_append_left (List.mem_range.1 member)
    rw [List.length_append, List.length_singleton, List.range_succ, List.filterMap_append, earlier,
      ih]
    simp

theorem unplaced_eq_filterMap (items : List α) :
    unplaced name order.eraseDups items =
      ((List.range (items.map name).length).filter fun i =>
        ¬ Leads order (items.map name) i).filterMap (items[·]?) := by
  induction items using List.reverseRecOn with
  | nil => rfl
  | append_singleton items item ih =>
    have earlier : ((List.range (items.map name).length).filter fun i =>
        ¬ Leads order (items.map name ++ [name item]) i).filterMap ((items ++ [item])[·]?) =
          ((List.range (items.map name).length).filter fun i =>
            ¬ Leads order (items.map name) i).filterMap (items[·]?) := by
      have before {i : Nat} (member : i ∈ List.range (items.map name).length) :
          i < (items.map name).length := List.mem_range.1 member
      have same : ∀ i ∈ List.range (items.map name).length,
          decide (¬ Leads order (items.map name ++ [name item]) i) =
            decide (¬ Leads order (items.map name) i) := fun i member =>
        decide_eq_decide.2 (not_congr (leads_concat_of_lt (before member)))
      rw [List.filter_congr same]
      refine List.filterMap_congr fun i member => List.getElem?_append_left ?_
      simpa using before (List.mem_filter.1 member).1
    have last : ((items ++ [item])[(items.map name).length]?) = some item := by simp
    rw [unplaced_concat (Listing.nodup_eraseDups order), ih, List.map_append, List.map_singleton,
      List.length_append, List.length_singleton, List.range_succ, List.filter_append,
      List.filterMap_append, earlier]
    congr 1
    simp only [List.filter_singleton, leads_concat_length, List.mem_eraseDups]
    split <;> simp_all

/-- What stands under the names and aside once some items have been read. -/
structure Sifts (order : List String) (name : α → String) (seen : List α) (sifted : Sifted α) :
    Prop where
  byName : ∀ n, sifted.byName.get? n = if n ∈ order then seen.find? (name · == n) else none
  aside : sifted.aside = unplaced name order.eraseDups seen

theorem sifts_nil : Sifts order name [] ⟨∅, []⟩ :=
  ⟨fun n => by simp, rfl⟩

/-- A name of the order stands in the map just if an item with it has been read. -/
theorem Sifts.contains_iff {sifted : Sifted α} (sifts : Sifts order name items sifted)
    {n : String} : sifted.byName.contains n ↔ n ∈ order ∧ n ∈ items.map name := by
  unfold NameMap.contains
  rw [sifts.byName]
  split <;> simp_all

theorem find?_eq_none_iff {n : String} :
    items.find? (name · == n) = none ↔ n ∉ items.map name := by
  simp

/-- One more item is read: the first one with a name of the order goes under it, others aside. -/
theorem Sifts.add {sifted : Sifted α} (sifts : Sifts order name items sifted) (item : α) :
    Sifts order name (items ++ [item]) (sifted.add order name item) := by
  have left_over : unplaced name order.eraseDups (items ++ [item]) = _ :=
    unplaced_concat (Listing.nodup_eraseDups order) items item
  simp only [List.mem_eraseDups, ← sifts.aside] at left_over
  have placed : (order.contains (name item) && !sifted.byName.contains (name item)) = true ↔
      name item ∈ order ∧ name item ∉ items.map name := by
    rw [Bool.and_eq_true, List.contains_iff_mem, Bool.not_eq_true', Bool.eq_false_iff, ne_eq,
      sifts.contains_iff]
    tauto
  unfold Sifted.add
  by_cases leads : name item ∈ order ∧ name item ∉ items.map name
  · rw [if_pos leads] at left_over
    rw [if_pos (placed.2 leads)]
    refine ⟨fun n => ?_, by rw [left_over, List.append_nil]⟩
    rw [NameMap.get?_insert, sifts.byName, List.find?_append]
    by_cases here : n = name item
    · subst here
      simp [leads.1, find?_eq_none_iff.2 leads.2]
    · simp [here, Ne.symm here]
  · rw [if_neg leads] at left_over
    rw [if_neg (mt placed.1 leads)]
    refine ⟨fun n => ?_, left_over.symm⟩
    rw [sifts.byName, List.find?_append]
    by_cases here : n = name item
    · subst here
      by_cases ordered : name item ∈ order
      · have met : (items.find? (name · == name item)).isSome := by
          rw [Option.isSome_iff_ne_none, ne_eq, find?_eq_none_iff]
          tauto
        obtain ⟨first, found⟩ := Option.isSome_iff_exists.1 met
        simp [found]
      · simp [ordered]
    · simp [Ne.symm here]

theorem sifts_foldl (order : List String) (name : α → String) (items : List α) :
    Sifts order name items (items.foldl (Sifted.add order name) ⟨∅, []⟩) := by
  induction items using List.reverseRecOn with
  | nil => exact sifts_nil
  | append_singleton items item ih =>
    rw [List.foldl_concat]
    exact ih.add item

/-- What is taken out of a map by some names is what stands there under each of them once. -/
theorem takeAll_eq_filterMap (byName : NameMap α) (names : List String) :
    Sifted.takeAll byName names = names.eraseDups.filterMap byName.get? := by
  induction names generalizing byName with
  | nil => rfl
  | cons n rest ih =>
    have others : rest.eraseDups.filterMap (byName.erase n).get? =
        (rest.eraseDups.filter (!· == n)).filterMap byName.get? := by
      rw [List.filterMap_filter]
      refine List.filterMap_congr fun m _ => ?_
      rw [NameMap.get?_erase]
      by_cases same : m = n <;> simp [same]
    rw [Sifted.takeAll, ih, others, List.eraseDups_cons, Listing.eraseDups_filter,
      List.filterMap_cons]
    cases byName.get? n <;> rfl

theorem rearrange_eq_arrange (order : DeclarationOrder) (name : α → String) (items : List α) :
    order.rearrange name items = order.arrange name items := by
  have sifts := sifts_foldl order.order name items
  unfold rearrange arrange
  simp only [takeAll_eq_filterMap, sifts.aside]
  congr 1
  refine List.filterMap_congr fun n member => ?_
  rw [sifts.byName, if_pos (List.mem_eraseDups.1 member)]

theorem arranges_arrange (order : DeclarationOrder) (name : α → String) (items : List α) :
    Arranges order.order name items (order.arrange name items) := by
  refine ⟨_, _, arranged_positions order.order (items.map name), ?_⟩
  have front : order.order.eraseDups.filterMap (fun n => items.find? (name · == n)) =
      (order.order.eraseDups.filterMap (items.map name).idxOf?).filterMap (items[·]?) := by
    rw [List.filterMap_filterMap]
    exact List.filterMap_congr fun n _ => find?_name_eq n
  rw [arrange, front, unplaced_eq_filterMap, List.filterMap_append]

theorem Arranges.perm {found : List α} (arranges : Arranges order name items found) :
    found.Perm items := by
  obtain ⟨front, behind, arranged, rfl⟩ := arranges
  have perm := arranged.perm.filterMap (items[·]?)
  rwa [List.length_map, filterMap_range] at perm

/-- To rearrange items loses and repeats none of them, whatever the order: the first item of each
name that the order has comes in front, by where the order has the name first, and all others follow
as they were. No other list is so arranged. -/
theorem rearrange_keeps_items (order : DeclarationOrder) (name : α → String) (items : List α) :
    order.rearrange name items = order.arrange name items ∧
      (order.arrange name items).Perm items ∧
      ∀ found, Arranges order.order name items found ↔ found = order.arrange name items := by
  have arranges := arranges_arrange order name items
  refine ⟨rearrange_eq_arrange order name items, arranges.perm, fun found => ?_⟩
  constructor
  · rintro ⟨front, behind, arranged, rfl⟩
    obtain ⟨front', behind', arranged', same⟩ := arranges
    obtain ⟨rfl, rfl⟩ := arranged.unique arranged'
    exact same.symm
  · rintro rfl
    exact arranges

/-- Names that come twice, in the order and among the items. -/
example :
    rearrange ⟨["b", "x", "c", "b"], []⟩ Prod.fst [("a", 1), ("b", 2), ("b", 3), ("c", 4)] =
      [("b", 2), ("c", 4), ("a", 1), ("b", 3)] := by
  decide

end Items

end ZodModules.DeclarationOrder
