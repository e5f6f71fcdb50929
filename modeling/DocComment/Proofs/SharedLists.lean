import DocComment.Doclet.Step

/-!
# Lists that are held in several places

An item that is added to a list shows wherever the list is held. Which places these are is told by
the keys in a value (`FieldValue.keys`): a value without the key of the list stays as it is
(`FieldValue.extend_of_notMem`), and one that holds it grows (`FieldValue.extend_ne`). So an item
added to the list in a field changes nothing else as long as no other value holds the key of that
list.

New lists get their keys when a doclet adopts a value. `FieldValue.settle` leaves no list without a
key (`FieldValue.isSettled_settle`), brings in none but keys of its field that were not in use
(`FieldValue.mem_keys_settle`), and does nothing more when it is done twice
(`FieldValue.settle_settle`).

An item can be added to a field that is unset or holds a list; `Doclet.push_cases` says what becomes
of the doclet in either case.
-/

namespace DocComment

namespace FieldValue

/-! ### Values inside values -/

/-- Whether a `FieldValue` has no values inside. -/
def isLeaf : FieldValue → Bool
  | absent | text _ | flag _ | number _ | decimal _ => true
  | _ => false

/-- **Induction on `FieldValue`s**: what holds of a value if it holds of the values inside holds of
all. -/
theorem induct {motive : FieldValue → Prop} (leaf : ∀ v, v.isLeaf = true → motive v)
    (typed : ∀ types name description optional defaultValue, motive types →
      motive (.typed types name description optional defaultValue))
    (tag : ∀ t value, motive value → motive (.tag t value))
    (strayTag : ∀ title s, motive title → motive (.strayTag title s))
    (borrowed : ∀ source target, motive source → motive target → motive (.borrowed source target))
    (list : ∀ key items, (∀ v ∈ items, motive v) → motive (.list key items))
    (record : ∀ members, (∀ m ∈ members, motive m.2) → motive (.record members))
    (v : FieldValue) : motive v :=
  @FieldValue.rec motive (fun items => ∀ v ∈ items, motive v)
    (fun members => ∀ m ∈ members, motive m.2) (fun m => motive m.2)
    (leaf _ rfl) (fun _ => leaf _ rfl) (fun _ => leaf _ rfl) (fun _ => leaf _ rfl)
    (fun _ => leaf _ rfl) typed tag strayTag borrowed list record
    (List.forall_mem_nil _) (fun _ _ hv hmore => List.forall_mem_cons.mpr ⟨hv, hmore⟩)
    (List.forall_mem_nil _) (fun _ _ hm hmore => List.forall_mem_cons.mpr ⟨hm, hmore⟩)
    (fun _ _ hv => hv) v

mutual

/-- Whether **all lists in a value have a key**: no `list` in it has `none`. -/
def isSettled : FieldValue → Bool
  | list key items => key.isSome && allSettled items
  | typed types _ _ _ _ => isSettled types
  | tag _ value => isSettled value
  | strayTag title _ => isSettled title
  | borrowed source target => isSettled source && isSettled target
  | record members => membersSettled members
  | _ => true

/-- Whether all items of a list are `isSettled`. -/
def allSettled : List FieldValue → Bool
  | [] => true
  | v :: more => isSettled v && allSettled more

/-- Whether all members of a record are `isSettled`. -/
def membersSettled : List (String × FieldValue) → Bool
  | [] => true
  | (_, v) :: more => isSettled v && membersSettled more

end

/-! The functions on the items of a list and on the members of a record are those on values, one
after another. -/

section Members

variable (key : ListKey) (item : FieldValue)

theorem extendItems_eq_map (items : List FieldValue) :
    extendItems key item items = items.map (extend key item) := by
  induction items with
  | nil => rw [extendItems, List.map_nil]
  | cons v items ih => rw [extendItems, ih, List.map_cons]

theorem extendMembers_eq_map (members : List (String × FieldValue)) :
    extendMembers key item members = members.map fun m => (m.1, extend key item m.2) := by
  induction members with
  | nil => rw [extendMembers, List.map_nil]
  | cons m members ih => rw [extendMembers, ih, List.map_cons]

theorem keysOfItems_eq_flatMap (items : List FieldValue) :
    keysOfItems items = items.flatMap keys := by
  induction items with
  | nil => rw [keysOfItems, List.flatMap_nil]
  | cons v items ih => rw [keysOfItems, ih, List.flatMap_cons]

theorem keysOfMembers_eq_flatMap (members : List (String × FieldValue)) :
    keysOfMembers members = members.flatMap fun m => keys m.2 := by
  induction members with
  | nil => rw [keysOfMembers, List.flatMap_nil]
  | cons m members ih => rw [keysOfMembers, ih, List.flatMap_cons]

theorem allSettled_eq_all (items : List FieldValue) : allSettled items = items.all isSettled := by
  induction items with
  | nil => rw [allSettled, List.all_nil]
  | cons v items ih => rw [allSettled, ih, List.all_cons]

theorem membersSettled_eq_all (members : List (String × FieldValue)) :
    membersSettled members = members.all fun m => isSettled m.2 := by
  induction members with
  | nil => rw [membersSettled, List.all_nil]
  | cons m members ih => rw [membersSettled, ih, List.all_cons]

theorem keysOfItems_append (items more : List FieldValue) :
    keysOfItems (items ++ more) = keysOfItems items ++ keysOfItems more := by
  simp only [keysOfItems_eq_flatMap, List.flatMap_append]

end Members

section Leaf

variable {v : FieldValue} (h : v.isLeaf = true)
include h

theorem extend_leaf (key : ListKey) (item : FieldValue) : extend key item v = v := by
  cases v with
  | absent | text s | flag b | number n | decimal shown => simp [extend]
  | _ => cases h

theorem keys_leaf : v.keys = [] := by
  cases v with
  | absent | text s | flag b | number n | decimal shown => simp [keys]
  | _ => cases h

theorem isSettled_leaf : v.isSettled = true := by
  cases v with
  | absent | text s | flag b | number n | decimal shown => simp [isSettled]
  | _ => cases h

theorem settle_leaf (home : Slot) (n : Nat) : settle home n v = (v, n) := by
  cases v with
  | absent | text s | flag b | number n | decimal shown => simp [settle]
  | _ => cases h

end Leaf

/-! ### What an addition changes -/

/-- `extend` leaves a list of values as it is exactly if it does so with each of them. -/
theorem map_extend_eq_iff {key : ListKey} {item : FieldValue} {items : List FieldValue} :
    items.map (extend key item) = items ↔ ∀ v ∈ items, extend key item v = v := by
  have hself := List.map_inj_left (l := items) (f := extend key item) (g := id)
  rwa [List.map_id] at hself

theorem map_extend_members_eq_iff {key : ListKey} {item : FieldValue}
    {members : List (String × FieldValue)} :
    (members.map fun m => (m.1, extend key item m.2)) = members ↔
      ∀ m ∈ members, extend key item m.2 = m.2 := by
  have hself := List.map_inj_left (l := members) (f := fun m => (m.1, extend key item m.2))
    (g := id)
  rw [List.map_id] at hself
  rw [hself]
  exact forall₂_congr fun m _ => ⟨fun h => congrArg Prod.snd h, fun h => Prod.ext rfl h⟩

/-- **`extend` changes a value exactly if it holds the list** that the item is added to. -/
theorem extend_eq_self_iff {key : ListKey} {item v : FieldValue} :
    extend key item v = v ↔ key ∉ v.keys := by
  induction v using induct with
  | leaf v hv => simp [extend_leaf hv, keys_leaf hv]
  | typed types name description optional defaultValue ih => simp [extend, keys, ih]
  | tag t value ih => simp [extend, keys, ih]
  | strayTag title s ih => simp [extend, keys, ih]
  | borrowed source target ihsource ihtarget => simp [extend, keys, ihsource, ihtarget]
  | list k items ih =>
    rw [extend, keys, extendItems_eq_map, keysOfItems_eq_flatMap, List.mem_append, not_or,
      Option.mem_toList, List.mem_flatMap, FieldValue.list.injEq, eq_self, true_and]
    by_cases hk : k = some key
    · -- The list itself gets longer.
      rw [if_pos hk]
      refine ⟨fun hitems => ?_, fun h => absurd hk h.1⟩
      have hlength := congrArg List.length hitems
      simp at hlength
    · rw [if_neg hk, List.append_nil, map_extend_eq_iff]
      constructor
      · rintro hitems
        refine ⟨hk, ?_⟩
        rintro ⟨v, hv, hkey⟩
        exact (ih v hv).mp (hitems v hv) hkey
      · intro h v hv
        exact (ih v hv).mpr fun hkey => h.2 ⟨v, hv, hkey⟩
  | record members ih =>
    rw [extend, keys, extendMembers_eq_map, keysOfMembers_eq_flatMap, FieldValue.record.injEq,
      map_extend_members_eq_iff, List.mem_flatMap]
    constructor
    · rintro hmembers ⟨m, hm, hkey⟩
      exact (ih m hm).mp (hmembers m hm) hkey
    · intro h m hm
      exact (ih m hm).mpr fun hkey => h ⟨m, hm, hkey⟩

/-- `extend` leaves a value that does not hold the list as it is. -/
theorem extend_of_notMem {key : ListKey} (item : FieldValue) {v : FieldValue}
    (h : key ∉ v.keys) : extend key item v = v :=
  extend_eq_self_iff.mpr h

theorem extendItems_of_notMem {key : ListKey} (item : FieldValue) {items : List FieldValue}
    (h : key ∉ keysOfItems items) : extendItems key item items = items := by
  rw [keysOfItems_eq_flatMap, List.mem_flatMap] at h
  rw [extendItems_eq_map, map_extend_eq_iff]
  exact fun v hv => extend_of_notMem item fun hkey => h ⟨v, hv, hkey⟩

/-- `extend` takes no keys away, and brings in none but those of the item. -/
theorem mem_keys_extend {key k : ListKey} {item v : FieldValue} :
    (k ∈ v.keys → k ∈ (extend key item v).keys) ∧
      (k ∈ (extend key item v).keys → k ∈ v.keys ∨ k ∈ item.keys) := by
  induction v using induct with
  | leaf v hv => simp [extend_leaf hv, keys_leaf hv]
  | typed types name description optional defaultValue ih => simpa [extend, keys] using ih
  | tag t value ih => simpa [extend, keys] using ih
  | strayTag title s ih => simpa [extend, keys] using ih
  | borrowed source target ihsource ihtarget =>
    simp only [extend, keys, List.mem_append]
    exact ⟨Or.imp ihsource.1 ihtarget.1, fun h => by
      rcases h with h | h
      · exact (ihsource.2 h).imp_left .inl
      · exact (ihtarget.2 h).imp_left .inr⟩
  -- A list keeps its own key and those of its items; if it is the one, those of the new item come
  -- in.
  | list l items ih =>
    simp only [extend, keys, extendItems_eq_map, keysOfItems_eq_flatMap, List.flatMap_append,
      List.mem_append, List.mem_flatMap, List.mem_map]
    constructor
    · rintro (h | ⟨v, hv, hk⟩)
      · exact .inl h
      · exact .inr (.inl ⟨_, ⟨v, hv, rfl⟩, (ih v hv).1 hk⟩)
    · -- The key is that of the list, of an old item or of the new one.
      rintro (h | ⟨_, ⟨v, hv, rfl⟩, hk⟩ | ⟨v, hv, hk⟩)
      · exact .inl (.inl h)
      · exact ((ih v hv).2 hk).imp_left fun hk => .inr ⟨v, hv, hk⟩
      · split at hv
        · cases List.mem_singleton.mp hv
          exact .inr hk
        · cases hv
  | record members ih =>
    simp only [extend, keys, extendMembers_eq_map, keysOfMembers_eq_flatMap, List.mem_flatMap,
      List.mem_map]
    constructor
    · rintro ⟨m, hm, hk⟩
      exact ⟨_, ⟨m, hm, rfl⟩, (ih m hm).1 hk⟩
    · rintro ⟨_, ⟨m, hm, rfl⟩, hk⟩
      exact ((ih m hm).2 hk).imp_left fun hk => ⟨m, hm, hk⟩

/-- `extend` with an item whose lists have keys leaves no list without one. -/
theorem isSettled_extend {key : ListKey} {item v : FieldValue} (hitem : item.isSettled = true)
    (hv : v.isSettled = true) : (extend key item v).isSettled = true := by
  induction v using induct with
  | leaf v hleaf => rwa [extend_leaf hleaf]
  | typed types name description optional defaultValue ih =>
    rw [isSettled] at hv
    rw [extend, isSettled, ih hv]
  | tag t value ih =>
    rw [isSettled] at hv
    rw [extend, isSettled, ih hv]
  | strayTag title s ih =>
    rw [isSettled] at hv
    rw [extend, isSettled, ih hv]
  | borrowed source target ihsource ihtarget =>
    rw [isSettled, Bool.and_eq_true] at hv
    rw [extend, isSettled, ihsource hv.1, ihtarget hv.2, Bool.and_self]
  | list k items ih =>
    rw [isSettled, allSettled_eq_all, Bool.and_eq_true, List.all_eq_true] at hv
    rw [extend, isSettled, allSettled_eq_all, extendItems_eq_map, List.all_append, hv.1,
      Bool.true_and, Bool.and_eq_true, List.all_eq_true, List.all_eq_true]
    -- The old items are settled by induction, and the new one, if it comes in here, is settled
    -- itself.
    refine ⟨fun w hw => ?_, fun w hw => ?_⟩
    · obtain ⟨v, hmem, rfl⟩ := List.mem_map.mp hw
      exact ih v hmem (hv.2 v hmem)
    · split at hw
      · rwa [List.mem_singleton.mp hw]
      · cases hw
  | record members ih =>
    rw [isSettled, membersSettled_eq_all, List.all_eq_true] at hv
    rw [extend, isSettled, membersSettled_eq_all, extendMembers_eq_map, List.all_eq_true]
    intro w hw
    obtain ⟨m, hmem, rfl⟩ := List.mem_map.mp hw
    exact ih m hmem (hv m hmem)

/-! ### Keys for new lists -/

/-- Whether a key counts as new in the place `home`, in which there were `n` lists before and `m`
are now. -/
def IsNew (home : Slot) (n m : Nat) (k : ListKey) : Prop :=
  k.home = home ∧ n ≤ k.place ∧ k.place < m

theorem IsNew.mono {home : Slot} {n n' m m' : Nat} {k : ListKey} (h : IsNew home n m k)
    (hn : n' ≤ n)
    (hm : m ≤ m') : IsNew home n' m' k :=
  ⟨h.1, Nat.le_trans hn h.2.1, Nat.lt_of_lt_of_le h.2.2 hm⟩

theorem le_past (key : ListKey) (home : Slot) (n : Nat) : n ≤ key.past home n := by
  unfold ListKey.past
  split
  · exact Nat.le_max_left _ _
  · exact Nat.le_refl _

theorem past_new (home : Slot) (n : Nat) : ListKey.past ⟨home, n⟩ home n = n + 1 := by
  simp [ListKey.past]

/-- `settleMembers` does to a record what `settleItems` does to its values, and keeps the names. -/
theorem settleMembers_eq (home : Slot) (n : Nat) (members : List (String × FieldValue)) :
    (settleMembers home n members).1.map Prod.fst = members.map Prod.fst ∧
      (settleMembers home n members).1.map Prod.snd =
        (settleItems home n (members.map Prod.snd)).1 ∧
      (settleMembers home n members).2 = (settleItems home n (members.map Prod.snd)).2 := by
  induction members generalizing n with
  | nil => simp [settleMembers, settleItems]
  | cons m members ih => simp [settleMembers, settleItems, ih]

theorem keys_record (members : List (String × FieldValue)) :
    (FieldValue.record members).keys = keysOfItems (members.map Prod.snd) := by
  rw [keys, keysOfMembers_eq_flatMap, keysOfItems_eq_flatMap, List.flatMap_map]

theorem isSettled_record (members : List (String × FieldValue)) :
    (FieldValue.record members).isSettled = allSettled (members.map Prod.snd) := by
  rw [isSettled, membersSettled_eq_all, allSettled_eq_all, List.all_map]
  rfl

/-- Members with the same names and the same `FieldValue`s are the same. -/
theorem members_ext {xs ys : List (String × FieldValue)}
    (hnames : xs.map Prod.fst = ys.map Prod.fst)
    (hvalues : xs.map Prod.snd = ys.map Prod.snd) : xs = ys := by
  rw [← List.zip_unzip xs, ← List.zip_unzip ys, List.unzip_eq_map, List.unzip_eq_map, hnames,
    hvalues]

section Settle

variable {home : Slot}

/-- **`settle` brings in new keys only**, and counts them. -/
theorem mem_keys_settle (n : Nat) (v : FieldValue) :
    n ≤ (settle home n v).2 ∧
      ∀ k ∈ (settle home n v).1.keys, k ∈ v.keys ∨ IsNew home n (settle home n v).2 k := by
  -- Through a list of values: the count of one is where the next one goes on.
  have hitems : ∀ (items : List FieldValue), (∀ v ∈ items, ∀ n, n ≤ (settle home n v).2 ∧
      ∀ k ∈ (settle home n v).1.keys, k ∈ v.keys ∨ IsNew home n (settle home n v).2 k) → ∀ n,
      n ≤ (settleItems home n items).2 ∧ ∀ k ∈ keysOfItems (settleItems home n items).1,
        k ∈ keysOfItems items ∨ IsNew home n (settleItems home n items).2 k := by
    intro items ih n
    induction items generalizing n with
    | nil => simp [settleItems, keysOfItems]
    | cons v items ihitems =>
      obtain ⟨hv, hmore⟩ := List.forall_mem_cons.mp ih
      obtain ⟨hle, hkeys⟩ := hv n
      obtain ⟨hle', hkeys'⟩ := ihitems hmore (settle home n v).2
      simp only [settleItems, keysOfItems, List.mem_append]
      refine ⟨Nat.le_trans hle hle', fun k hk => ?_⟩
      rcases hk with hk | hk
      · exact (hkeys k hk).imp .inl fun hnew => hnew.mono (Nat.le_refl _) hle'
      · exact (hkeys' k hk).imp .inr fun hnew => hnew.mono hle (Nat.le_refl _)
  induction v using induct generalizing n with
  | leaf v hv => simp [settle_leaf hv, keys_leaf hv]
  | typed types name description optional defaultValue ih => simpa [settle, keys] using ih n
  | tag t value ih => simpa [settle, keys] using ih n
  | strayTag title s ih => simpa [settle, keys] using ih n
  | borrowed source target ihsource ihtarget =>
    obtain ⟨hle, hkeys⟩ := ihsource n
    obtain ⟨hle', hkeys'⟩ := ihtarget (settle home n source).2
    simp only [settle, keys, List.mem_append]
    refine ⟨Nat.le_trans hle hle', fun k hk => ?_⟩
    rcases hk with hk | hk
    · exact (hkeys k hk).imp .inl fun hnew => hnew.mono (Nat.le_refl _) hle'
    · exact (hkeys' k hk).imp .inr fun hnew => hnew.mono hle (Nat.le_refl _)
  | list key items ih =>
    have hpast := le_past (key.getD ⟨home, n⟩) home n
    obtain ⟨hle, hkeys⟩ := hitems items ih ((key.getD ⟨home, n⟩).past home n)
    simp only [settle, keys, List.mem_append, Option.mem_toList]
    refine ⟨Nat.le_trans hpast hle, fun k hk => ?_⟩
    rcases hk with hk | hk
    · -- The list itself has its key, or gets the next one.
      cases key with
      | some key => exact .inl (.inl hk)
      | none =>
        obtain rfl := Option.some.inj hk
        have hnext : n < ListKey.past ⟨home, n⟩ home n := by
          rw [past_new]
          exact Nat.lt_succ_self n
        exact .inr ⟨rfl, Nat.le_refl _, Nat.lt_of_lt_of_le hnext hle⟩
    · exact (hkeys k hk).imp .inr fun hnew => hnew.mono hpast (Nat.le_refl _)
  | record members ih =>
    have hvalues : ∀ v ∈ members.map Prod.snd, ∀ n, n ≤ (settle home n v).2 ∧
        ∀ k ∈ (settle home n v).1.keys, k ∈ v.keys ∨ IsNew home n (settle home n v).2 k := by
      intro v hv n
      obtain ⟨m, hm, rfl⟩ := List.mem_map.mp hv
      exact ih m hm n
    obtain ⟨-, hsame, hcount⟩ := settleMembers_eq home n members
    rw [settle, keys_record, keys_record, hsame, hcount]
    exact hitems _ hvalues n

/-- **`settle` leaves no list without a key.** -/
theorem isSettled_settle (n : Nat) (v : FieldValue) : (settle home n v).1.isSettled = true := by
  -- Lists and records both come down to their items, settled one after another with a growing
  -- count.
  have hitems : ∀ (items : List FieldValue),
      (∀ v ∈ items, ∀ n, (settle home n v).1.isSettled = true) →
      ∀ n, allSettled (settleItems home n items).1 = true := by
    intro items ih n
    induction items generalizing n with
    | nil => simp [settleItems, allSettled]
    | cons v items ihitems =>
      obtain ⟨hv, hmore⟩ := List.forall_mem_cons.mp ih
      rw [settleItems, allSettled, hv n, ihitems hmore, Bool.and_self]
  induction v using induct generalizing n with
  | leaf v hv => rw [settle_leaf hv, isSettled_leaf hv]
  | typed types name description optional defaultValue ih => rw [settle, isSettled, ih]
  | tag t value ih => rw [settle, isSettled, ih]
  | strayTag title s ih => rw [settle, isSettled, ih]
  | borrowed source target ihsource ihtarget =>
    rw [settle, isSettled, ihsource, ihtarget, Bool.and_self]
  | list key items ih => rw [settle, isSettled, hitems items ih, Option.isSome_some, Bool.and_self]
  | record members ih =>
    rw [settle, isSettled_record, (settleMembers_eq home n members).2.1]
    exact hitems _ (List.forall_mem_map.mpr ih) n

/-- **Where all lists have a key, `settle` changes nothing.** -/
theorem settle_of_isSettled (n : Nat) {v : FieldValue} (hv : v.isSettled = true) :
    (settle home n v).1 = v := by
  -- The count may be any: with no key to give, it does not matter to the items.
  have hitems : ∀ (items : List FieldValue), (∀ v ∈ items, v.isSettled = true → ∀ n,
      (settle home n v).1 = v) → allSettled items = true →
      ∀ n, (settleItems home n items).1 = items := by
    intro items ih hsettled n
    induction items generalizing n with
    | nil => rw [settleItems]
    | cons v items ihitems =>
      obtain ⟨hv, hmore⟩ := List.forall_mem_cons.mp ih
      rw [allSettled, Bool.and_eq_true] at hsettled
      rw [settleItems, hv hsettled.1, ihitems hmore hsettled.2]
  induction v using induct generalizing n with
  | leaf v hleaf => rw [settle_leaf hleaf]
  | typed types name description optional defaultValue ih =>
    rw [isSettled] at hv
    rw [settle, ih n hv]
  | tag t value ih =>
    rw [isSettled] at hv
    rw [settle, ih n hv]
  | strayTag title s ih =>
    rw [isSettled] at hv
    rw [settle, ih n hv]
  | borrowed source target ihsource ihtarget =>
    rw [isSettled, Bool.and_eq_true] at hv
    rw [settle, ihsource n hv.1, ihtarget _ hv.2]
  | list key items ih =>
    rw [isSettled, Bool.and_eq_true, Option.isSome_iff_exists] at hv
    -- The list has its key, and its items theirs.
    obtain ⟨⟨k, rfl⟩, hsettled⟩ := hv
    rw [settle, hitems items (fun v hv hs n => ih v hv n hs) hsettled, Option.getD_some]
  | record members ih =>
    rw [isSettled_record] at hv
    -- Members are their names, which stay, with their values, which are items.
    obtain ⟨hnames, hvalues, -⟩ := settleMembers_eq home n members
    rw [hitems _ (List.forall_mem_map.mpr fun m hm hs n => ih m hm n hs) hv] at hvalues
    rw [settle, members_ext hnames hvalues]

/-- **To `settle` twice is to settle once**, for the keys that were given count as given. -/
theorem settle_settle (n : Nat) (v : FieldValue) :
    settle home n (settle home n v).1 = settle home n v := by
  -- Both times each item starts from the same count, as the items before it are done the same way.
  have hitems : ∀ (items : List FieldValue), (∀ v ∈ items, ∀ n,
      settle home n (settle home n v).1 = settle home n v) → ∀ n,
      settleItems home n (settleItems home n items).1 = settleItems home n items := by
    intro items ih n
    induction items generalizing n with
    | nil => rw [settleItems, settleItems]
    | cons v items ihitems =>
      obtain ⟨hv, hmore⟩ := List.forall_mem_cons.mp ih
      rw [settleItems, settleItems, hv n, ihitems hmore]
  induction v using induct generalizing n with
  | leaf v hv => rw [settle_leaf hv, settle_leaf hv]
  | typed types name description optional defaultValue ih => rw [settle, settle, ih]
  | tag t value ih => rw [settle, settle, ih]
  | strayTag title s ih => rw [settle, settle, ih]
  | borrowed source target ihsource ihtarget => rw [settle, settle, ihsource, ihtarget]
  | list key items ih => rw [settle, settle, Option.getD_some, hitems items ih]
  | record members ih =>
    have hagain := hitems (members.map Prod.snd) (List.forall_mem_map.mpr ih) n
    obtain ⟨hnames, hvalues, hcount⟩ := settleMembers_eq home n members
    obtain ⟨hnames', hvalues', hcount'⟩ := settleMembers_eq home n (settleMembers home n members).1
    rw [hvalues, hagain] at hvalues' hcount'
    rw [settle, settle, members_ext hnames' (hvalues'.trans hvalues.symm), hcount', hcount]

end Settle

/-! ### Values without lists -/

@[simp] theorem keys_text (s : String) : (FieldValue.text s).keys = [] :=
  keys_leaf rfl

@[simp] theorem keys_absent : FieldValue.absent.keys = [] :=
  keys_leaf rfl

@[simp] theorem keys_flag (b : Bool) : (FieldValue.flag b).keys = [] :=
  keys_leaf rfl

@[simp] theorem keys_borrowed (source target : FieldValue) :
    (FieldValue.borrowed source target).keys = source.keys ++ target.keys := by
  rw [keys]

@[simp] theorem keys_ofTexts (texts : List String) : (ofTexts texts).keys = [] := by
  rw [ofTexts, keys, Option.toList_none, List.nil_append, keysOfItems_eq_flatMap, List.flatMap_map]
  exact List.flatMap_eq_nil_iff.mpr fun s _ => keys_text s

@[simp] theorem keys_ofTagValue (v : Tag.Value) : (ofTagValue v).keys = [] := by
  cases v with
  | plain s => exact keys_text s
  | typed v => rw [ofTagValue, keys, keys_ofTexts]

@[simp] theorem keys_ofTag (t : Tag) : (ofTag t).keys = [] := by
  rw [ofTag, keys, keys_ofTagValue]

@[simp] theorem keys_ofText? (s : Option String) : (ofText? s).keys = [] := by
  cases s <;> simp [ofText?]

end FieldValue

namespace Doclet

variable {d : Doclet}

/-- **What `push` comes to**, if it is not refused: a list is started, or the list in the field is
extended wherever it is held. A list without a key is only in this field. -/
theorem push_cases {f : Field} (h : growthRefusal? (d.fields f) = none) (item : FieldValue) :
    (d.fields f = .absent ∧
      d.push f item = (d.startList f [item]).2.put f (.list (some ⟨f, d.started f⟩) [item])) ∨
    (∃ key items, d.fields f = .list (some key) items ∧ d.push f item = d.extend key item) ∨
    (∃ items, d.fields f = .list none items ∧
      d.push f item = d.put f (.list none (items ++ [item]))) := by
  unfold push
  cases hvalue : d.fields f with
  -- A value that is neither absent nor a list is refused.
  | absent => exact .inl ⟨rfl, rfl⟩
  | list key items =>
    cases key with
    | none => exact .inr (.inr ⟨items, rfl, rfl⟩)
    | some key => exact .inr (.inl ⟨key, items, rfl, rfl⟩)
  | _ =>
    rw [hvalue] at h
    cases h

end Doclet

end DocComment
