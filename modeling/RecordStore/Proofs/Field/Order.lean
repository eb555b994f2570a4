import RecordStore.Field.Data
import Mathlib.Order.Fin.Basic
import Mathlib.Tactic.SplitIfs

/-!
The order of field values is a preorder: it turns round with its arguments and chains, and values
of different kinds compare by their ranks. Hence adding members keeps a set in strict order and
adding entries keeps a map in strict order of its keys, and a collection in order is built again
by adding its items one after the other.
-/
namespace RecordStore

/-- Of two comparisons in a row, neither of them downwards, the first that is strict decides. -/
def Chained (ab bc ac : Ordering) : Prop := ab ≠ .gt → bc ≠ .gt → ac = ab.then bc

theorem Chained.of_transCmp {α : Type} (cmp : α → α → Ordering) [Std.TransCmp cmp] (a b c : α) :
    Chained (cmp a b) (cmp b c) (cmp a c) := by
  intro hab hbc
  cases h₁ : cmp a b with
  | gt => exact absurd h₁ hab
  | lt =>
    have hbc' : (cmp b c).isLE := by
      cases h₂ : cmp b c <;> simp_all
    exact Std.TransCmp.lt_of_lt_of_isLE h₁ hbc'
  | eq => exact Std.TransCmp.congr_left h₁

/-- Lexicographic comparison chains where its two parts do. -/
theorem Chained.lexicographic {ab bc ac ab' bc' ac' : Ordering} (h : Chained ab bc ac)
    (h' : Chained ab' bc' ac') : Chained (ab.then ab') (bc.then bc') (ac.then ac') := by
  intro hab hbc
  have hab₁ : ab ≠ .gt := fun he => hab (by simp [he])
  have hbc₁ : bc ≠ .gt := fun he => hbc (by simp [he])
  have hac := h hab₁ hbc₁
  cases ab with
  | gt => exact absurd rfl hab₁
  | lt => simp_all
  | eq =>
    cases bc with
    | gt => exact absurd rfl hbc₁
    | lt =>
      have hac' : ac = .lt := hac
      cases ab' <;> simp_all
    | eq =>
      have hac' : ac = .eq := hac
      simp only [hac', Ordering.eq_then] at hab hbc ⊢
      exact h' hab hbc

namespace ObjectId

def bytesOrder (as bs : List (Fin 256)) : Ordering :=
  if bytesLt as bs then .lt else if bytesLt bs as then .gt else .eq

theorem bytesOrder_cons (a b : Fin 256) (as bs : List (Fin 256)) :
    bytesOrder (a :: as) (b :: bs) = (compare a.val b.val).then (bytesOrder as bs) := by
  rcases lt_trichotomy a b with hlt | heq | hgt
  · have hc : compare a.val b.val = .lt := Nat.compare_eq_lt.mpr hlt
    simp [bytesOrder, bytesLt, hlt, hc]
  · subst b
    simp [bytesOrder, bytesLt]
  · have hc : compare a.val b.val = .gt := Nat.compare_eq_gt.mpr hgt
    have hnot : ¬ a < b := not_lt_of_gt hgt
    have hne : a ≠ b := ne_of_gt hgt
    simp [bytesOrder, bytesLt, hgt, hc, hnot, hne]

theorem bytesOrder_swap (as bs : List (Fin 256)) : bytesOrder bs as = (bytesOrder as bs).swap := by
  induction as generalizing bs with
  | nil => cases bs <;> rfl
  | cons a as ih =>
    cases bs with
    | nil => rfl
    | cons b bs =>
      rw [bytesOrder_cons, bytesOrder_cons, Ordering.swap_then, ← ih bs, Nat.compare_swap]

/-- The order of bytes is transitive. -/
theorem bytesOrder_chained (as bs cs : List (Fin 256)) :
    Chained (bytesOrder as bs) (bytesOrder bs cs) (bytesOrder as cs) := by
  induction as generalizing bs cs with
  | nil =>
    cases bs with
    | nil =>
      intro _ _
      rfl
    | cons b bs =>
      cases cs with
      | nil => exact fun _ h => absurd rfl h
      | cons c cs =>
        intro _ _
        rfl
  | cons a as ih =>
    cases bs with
    | nil => exact fun h _ => absurd rfl h
    | cons b bs =>
      cases cs with
      | nil => exact fun _ h => absurd rfl h
      | cons c cs =>
        simp only [bytesOrder_cons]
        exact (Chained.of_transCmp compare a.val b.val c.val).lexicographic (ih bs cs)

end ObjectId

namespace Data

/-- Values of different kinds compare by rank. -/
theorem order_of_rank_ne (a b : Data) (h : a.rank ≠ b.rank) :
    order a b = compare a.rank b.rank := by
  cases a <;> cases b <;> first | rfl | exact absurd rfl h

theorem rank_le_of_order (a b : Data) (h : order a b ≠ .gt) : a.rank ≤ b.rank := by
  by_cases hr : a.rank = b.rank
  · exact Nat.le_of_eq hr
  · rw [order_of_rank_ne a b hr] at h
    exact Nat.compare_ne_gt.mp h

theorem stringOrder_swap (a b : String) : stringOrder b a = (stringOrder a b).swap :=
  @Std.OrientedCmp.eq_swap String compare inferInstance b a

theorem stringOrder_chained (a b c : String) :
    Chained (stringOrder a b) (stringOrder b c) (stringOrder a c) :=
  Chained.of_transCmp (compare : String → String → Ordering) a b c

mutual

/-- The order turns round with its arguments. -/
theorem order_swap (a b : Data) : order b a = (order a b).swap := by
  by_cases hr : a.rank = b.rank
  · cases a <;> cases b <;> try (simp [rank] at hr; done)
    case present.present a b => exact order_swap a b
    case list.list as bs => exact orderItems_swap as bs
    case map.map as bs => exact orderEntries_swap as bs
    case objectId.objectId a b => exact ObjectId.bytesOrder_swap a.bytes b.bytes
    case bool.bool a b => exact (Nat.compare_swap _ _).symm
    case integer.integer a b => exact Int.compare_swap a b |>.symm
    case char.char a b => exact (Nat.compare_swap _ _).symm
    case string.string a b => exact stringOrder_swap a b
    case variant.variant a _ b _ => exact stringOrder_swap a b
    all_goals rfl
  · rw [order_of_rank_ne a b hr, order_of_rank_ne b a (Ne.symm hr), Nat.compare_swap]

theorem orderItems_swap (as bs : List Data) : orderItems bs as = (orderItems as bs).swap := by
  cases as with
  | nil => cases bs <;> rfl
  | cons a as =>
    cases bs with
    | nil => rfl
    | cons b bs =>
      simp only [orderItems, Ordering.swap_then]
      rw [order_swap a b, orderItems_swap as bs]

theorem orderEntries_swap (as bs : List (Data × Data)) :
    orderEntries bs as = (orderEntries as bs).swap := by
  cases as with
  | nil => cases bs <;> rfl
  | cons a as =>
    cases bs with
    | nil => rfl
    | cons b bs =>
      obtain ⟨k, v⟩ := a
      obtain ⟨l, w⟩ := b
      simp only [orderEntries, Ordering.swap_then]
      rw [order_swap k l, order_swap v w, orderEntries_swap as bs]

end

/-- Between values of which one pair is of different kinds the ranks decide. -/
theorem order_chained_of_rank_ne (a b c : Data) (h : a.rank ≠ b.rank ∨ b.rank ≠ c.rank) :
    Chained (order a b) (order b c) (order a c) := by
  intro hab hbc
  have hab' := rank_le_of_order a b hab
  have hbc' := rank_le_of_order b c hbc
  have hac : a.rank < c.rank := by omega
  rw [order_of_rank_ne a c (by omega), Nat.compare_eq_lt.mpr hac]
  by_cases hr : a.rank = b.rank
  · have hb : b.rank ≠ c.rank := by omega
    have hlt : b.rank < c.rank := by omega
    rw [order_of_rank_ne b c hb, Nat.compare_eq_lt.mpr hlt]
    cases h₁ : order a b with
    | gt => exact absurd h₁ hab
    | lt => rfl
    | eq => rfl
  · have hlt : a.rank < b.rank := by omega
    rw [order_of_rank_ne a b hr, Nat.compare_eq_lt.mpr hlt]
    rfl

mutual

/-- The order of values is transitive. -/
theorem order_chained (a b c : Data) : Chained (order a b) (order b c) (order a c) := by
  by_cases h : a.rank ≠ b.rank ∨ b.rank ≠ c.rank
  · exact order_chained_of_rank_ne a b c h
  · have hr : a.rank = b.rank := by omega
    have hs : b.rank = c.rank := by omega
    cases a <;> cases b <;> try (simp [rank] at hr; done)
    all_goals cases c <;> try (simp [rank] at hs; done)
    case present.present.present a b c => exact order_chained a b c
    case list.list.list as bs cs => exact orderItems_chained as bs cs
    case map.map.map as bs cs => exact orderEntries_chained as bs cs
    case objectId.objectId.objectId a b c =>
      exact ObjectId.bytesOrder_chained a.bytes b.bytes c.bytes
    case bool.bool.bool a b c => exact Chained.of_transCmp compare a.toNat b.toNat c.toNat
    case integer.integer.integer a b c => exact Chained.of_transCmp compare a b c
    case char.char.char a b c => exact Chained.of_transCmp compare a.toNat b.toNat c.toNat
    case string.string.string a b c => exact stringOrder_chained a b c
    case variant.variant.variant a _ b _ c _ => exact stringOrder_chained a b c
    all_goals exact fun _ _ => rfl

theorem orderItems_chained (as bs cs : List Data) :
    Chained (orderItems as bs) (orderItems bs cs) (orderItems as cs) := by
  cases as with
  | nil =>
    cases bs with
    | nil => exact fun _ _ => rfl
    | cons b bs =>
      cases cs with
      | nil => exact fun _ h => absurd rfl h
      | cons c cs => exact fun _ _ => rfl
  | cons a as =>
    cases bs with
    | nil => exact fun h _ => absurd rfl h
    | cons b bs =>
      cases cs with
      | nil => exact fun _ h => absurd rfl h
      | cons c cs => exact (order_chained a b c).lexicographic (orderItems_chained as bs cs)

theorem orderEntries_chained (as bs cs : List (Data × Data)) :
    Chained (orderEntries as bs) (orderEntries bs cs) (orderEntries as cs) := by
  cases as with
  | nil =>
    cases bs with
    | nil => exact fun _ _ => rfl
    | cons b bs =>
      cases cs with
      | nil => exact fun _ h => absurd rfl h
      | cons c cs => exact fun _ _ => rfl
  | cons a as =>
    cases bs with
    | nil => exact fun h _ => absurd rfl h
    | cons b bs =>
      cases cs with
      | nil => exact fun _ h => absurd rfl h
      | cons c cs =>
        obtain ⟨k, v⟩ := a
        obtain ⟨l, w⟩ := b
        obtain ⟨m, x⟩ := c
        exact ((order_chained k l m).lexicographic (order_chained v w x)).lexicographic
          (orderEntries_chained as bs cs)

end

theorem order_lt_trans {a b c : Data} (hab : order a b = .lt) (hbc : order b c = .lt) :
    order a c = .lt := by
  have hac := order_chained a b c (by simp [hab]) (by simp [hbc])
  rw [hac, hab]
  rfl

theorem order_gt_iff {a b : Data} : order a b = .gt ↔ order b a = .lt := by
  rw [order_swap b a]
  cases order b a <;> decide

def Ascending (items : List Data) : Prop := items.Pairwise fun a b => order a b = .lt

theorem mem_insertItem {d e : Data} {items : List Data} (h : e ∈ insertItem d items) :
    e = d ∨ e ∈ items := by
  induction items with
  | nil => exact .inl (List.mem_singleton.mp h)
  | cons x rest ih =>
    unfold insertItem at h
    split at h
    · exact List.mem_cons.mp h
    · exact .inr h
    · rcases List.mem_cons.mp h with rfl | h
      · exact .inr (List.mem_cons_self ..)
      · rcases ih h with rfl | h
        · exact .inl rfl
        · exact .inr (List.mem_cons_of_mem _ h)

theorem insertItem_ascending {d : Data} {items : List Data} (h : Ascending items) :
    Ascending (insertItem d items) := by
  induction items with
  | nil => exact List.pairwise_singleton _ _
  | cons x rest ih =>
    obtain ⟨hx, hrest⟩ := List.pairwise_cons.mp h
    unfold insertItem
    split
    · next hd =>
      refine List.pairwise_cons.mpr ⟨?_, h⟩
      intro e he
      rcases List.mem_cons.mp he with rfl | he
      · exact hd
      · exact order_lt_trans hd (hx e he)
    · exact h
    · next hd =>
      refine List.pairwise_cons.mpr ⟨?_, ih hrest⟩
      intro e he
      rcases mem_insertItem he with rfl | he
      · exact order_gt_iff.mp hd
      · exact hx e he

theorem insertItem_last {d : Data} {items : List Data} (h : ∀ e ∈ items, order e d = .lt) :
    insertItem d items = items ++ [d] := by
  induction items with
  | nil => rfl
  | cons x rest ih =>
    have hx : order d x = .gt := order_gt_iff.mpr (h x (List.mem_cons_self ..))
    have hrest := ih fun e he => h e (List.mem_cons_of_mem _ he)
    simp [insertItem, hx, hrest]

theorem foldl_insertItem_ascending (items : List Data) :
    ∀ done, Ascending done → Ascending (items.foldl (fun s d => insertItem d s) done) := by
  induction items with
  | nil => exact fun done h => h
  | cons d rest ih => exact fun done h => ih _ (insertItem_ascending h)

theorem mem_foldl_insertItem {e : Data} (items : List Data) :
    ∀ done, e ∈ items.foldl (fun s d => insertItem d s) done → e ∈ done ∨ e ∈ items := by
  induction items with
  | nil => exact fun done h => .inl h
  | cons d rest ih =>
    intro done h
    rcases ih _ h with h | h
    · rcases mem_insertItem h with rfl | h
      · exact .inr (List.mem_cons_self ..)
      · exact .inl h
    · exact .inr (List.mem_cons_of_mem _ h)

/-- Adding items that ascend puts each behind those before it. -/
theorem foldl_insertItem_of_ascending (items : List Data) :
    ∀ done, Ascending (done ++ items) →
      items.foldl (fun s d => insertItem d s) done = done ++ items := by
  induction items with
  | nil => simp
  | cons d rest ih =>
    intro done h
    have hlast : ∀ e ∈ done, order e d = .lt := fun e he =>
      (List.pairwise_append.mp h).2.2 e he d (List.mem_cons_self ..)
    rw [List.foldl_cons, insertItem_last hlast, ih _ (by simpa using h)]
    simp

/-- A set built from members in strict order has those members. -/
theorem setOf_of_ascending {items : List Data} (h : Ascending items) :
    setOf items = .list items := by
  unfold setOf
  rw [foldl_insertItem_of_ascending items [] (by simpa using h)]
  simp

theorem mem_insertEntry {k v : Data} {e : Data × Data} {entries : List (Data × Data)}
    (h : e ∈ insertEntry k v entries) :
    (e.1 = k ∨ e.1 ∈ entries.map Prod.fst) ∧ (e.2 = v ∨ e ∈ entries) := by
  induction entries with
  | nil =>
    have he := List.mem_singleton.mp h
    exact ⟨.inl (by rw [he]), .inl (by rw [he])⟩
  | cons x rest ih =>
    obtain ⟨l, w⟩ := x
    unfold insertEntry at h
    split at h
    · rcases List.mem_cons.mp h with rfl | h
      · exact ⟨.inl rfl, .inl rfl⟩
      · exact ⟨.inr (List.mem_map_of_mem h), .inr h⟩
    · rcases List.mem_cons.mp h with rfl | h
      · exact ⟨.inr (by simp), .inl rfl⟩
      · have hmem := List.mem_cons_of_mem (l, w) h
        exact ⟨.inr (List.mem_map_of_mem hmem), .inr hmem⟩
    · rcases List.mem_cons.mp h with rfl | h
      · exact ⟨.inr (by simp), .inr (List.mem_cons_self ..)⟩
      · obtain ⟨hk, hv⟩ := ih h
        exact ⟨hk.imp_right (List.mem_cons_of_mem _), hv.imp_right (List.mem_cons_of_mem _)⟩

theorem insertEntry_ascending {k v : Data} {entries : List (Data × Data)}
    (h : Ascending (entries.map Prod.fst)) :
    Ascending ((insertEntry k v entries).map Prod.fst) := by
  induction entries with
  | nil => exact List.pairwise_singleton _ _
  | cons x rest ih =>
    obtain ⟨l, w⟩ := x
    obtain ⟨hl, hrest⟩ := List.pairwise_cons.mp h
    unfold insertEntry
    split
    · next hk =>
      refine List.pairwise_cons.mpr ⟨?_, h⟩
      intro e he
      rcases List.mem_cons.mp he with rfl | he
      · exact hk
      · exact order_lt_trans hk (hl e he)
    · exact h
    · next hk =>
      refine List.pairwise_cons.mpr ⟨?_, ih hrest⟩
      intro e he
      obtain ⟨p, hp, rfl⟩ := List.mem_map.mp he
      rcases (mem_insertEntry hp).1 with hpk | hp
      · rw [hpk]
        exact order_gt_iff.mp hk
      · exact hl _ hp

theorem insertEntry_last {k v : Data} {entries : List (Data × Data)}
    (h : ∀ e ∈ entries, order e.1 k = .lt) : insertEntry k v entries = entries ++ [(k, v)] := by
  induction entries with
  | nil => rfl
  | cons x rest ih =>
    obtain ⟨l, w⟩ := x
    have hl : order k l = .gt := order_gt_iff.mpr (h (l, w) (List.mem_cons_self ..))
    have hrest := ih fun e he => h e (List.mem_cons_of_mem _ he)
    simp [insertEntry, hl, hrest]

theorem foldl_insertEntry_ascending (entries : List (Data × Data)) :
    ∀ done, Ascending (done.map Prod.fst) →
      Ascending ((entries.foldl (fun m e => insertEntry e.1 e.2 m) done).map Prod.fst) := by
  induction entries with
  | nil => exact fun done h => h
  | cons x rest ih => exact fun done h => ih _ (insertEntry_ascending h)

/-- The keys and the values of a map come from the entries that it is built from. -/
theorem mem_foldl_insertEntry {e : Data × Data} (entries : List (Data × Data)) :
    ∀ done, e ∈ entries.foldl (fun m e => insertEntry e.1 e.2 m) done →
      (e.1 ∈ done.map Prod.fst ∨ e.1 ∈ entries.map Prod.fst) ∧
        (e.2 ∈ done.map Prod.snd ∨ e.2 ∈ entries.map Prod.snd) := by
  induction entries with
  | nil =>
    exact fun done h => ⟨.inl (List.mem_map_of_mem h), .inl (List.mem_map_of_mem h)⟩
  | cons x rest ih =>
    intro done h
    obtain ⟨hk, hv⟩ := ih _ h
    constructor
    · rcases hk with hk | hk
      · obtain ⟨p, hp, hpe⟩ := List.mem_map.mp hk
        rcases (mem_insertEntry hp).1 with hpk | hp
        · exact .inr (by simp [← hpe, hpk])
        · exact .inl (hpe ▸ hp)
      · exact .inr (List.mem_cons_of_mem _ hk)
    · rcases hv with hv | hv
      · obtain ⟨p, hp, hpe⟩ := List.mem_map.mp hv
        rcases (mem_insertEntry hp).2 with hpv | hp
        · exact .inr (by simp [← hpe, hpv])
        · exact .inl (hpe ▸ List.mem_map_of_mem hp)
      · exact .inr (List.mem_cons_of_mem _ hv)

/-- Adding entries whose keys ascend puts each behind those before it. -/
theorem foldl_insertEntry_of_ascending (entries : List (Data × Data)) :
    ∀ done, Ascending ((done ++ entries).map Prod.fst) →
      entries.foldl (fun m e => insertEntry e.1 e.2 m) done = done ++ entries := by
  induction entries with
  | nil => simp
  | cons x rest ih =>
    obtain ⟨k, v⟩ := x
    intro done h
    have hlast : ∀ e ∈ done, order e.1 k = .lt := by
      intro e he
      rw [List.map_append] at h
      exact (List.pairwise_append.mp h).2.2 e.1 (List.mem_map_of_mem he) k (by simp)
    rw [List.foldl_cons, insertEntry_last hlast, ih _ (by simpa using h)]
    simp

/-- A map built from entries in strict order of their keys has those entries. -/
theorem mapOf_of_ascending {entries : List (Data × Data)}
    (h : Ascending (entries.map Prod.fst)) : mapOf entries = .map entries := by
  unfold mapOf
  rw [foldl_insertEntry_of_ascending entries [] (by simpa using h)]
  simp

end Data

end RecordStore
