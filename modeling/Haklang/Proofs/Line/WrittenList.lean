import Haklang.Proofs.Line.Literal
import Haklang.Proofs.Number.Rounded

/-!
# Written lists

A list of numbers is written with a comma and a blank between its items, and each item has digits, a
point and a minus sign only. So in the line that assigns a written list (`Line.listLine`) the commas
are those between the items, the blanks around the items are trimmed away, and the only closing
bracket behind the name is the last one. The rules that are tried before the one for lists look for
words that do not stand behind the name (`variableName_eq_none`).

Reading loses what writing has rounded away, and nothing else (`ItemList.IsRounding`): integers come
back as they were, and decimals as what they are rounded to. A list that is read back is written in
the same way as before, so doing it all again changes nothing (`Line.ofString_listLine`).
-/

namespace Haklang

open Text Haklang.Expr

/-! ### Written items -/

namespace ItemList

/-- The items as they stand in a written list. -/
def written : ItemList → List String
  | ints xs => xs.map Integer.render
  | decimals p xs => xs.map fun d ↦ d.fixed p.places
  | texts xs => xs

/-- A list is written between brackets, with a comma and a blank between its items. -/
theorem render_eq (xs : ItemList) : xs.render = "[" ++ ", ".intercalate xs.written ++ "]" := by
  cases xs <;> rfl

/-- What is read back of a written list: decimals have lost what is rounded away. -/
def rounded : ItemList → ItemList
  | ints xs => ints xs
  | decimals p xs => decimals p (xs.map (·.rounded p.places))
  | texts xs => texts xs

/-- The second list is the first one with its decimals rounded half to even to the places of their
precision. -/
inductive IsRounding : ItemList → ItemList → Prop where
  /-- Integers are the same. -/
  | ints (xs : List Integer) : IsRounding (ints xs) (ints xs)
  /-- Decimals are rounded one by one. -/
  | decimals (p : Precision) {xs ys : List Decimal}
    (h : List.Forall₂ (Decimal.IsRounding p.places) xs ys) :
    IsRounding (decimals p xs) (decimals p ys)

variable {xs ys : ItemList}

/-- A list has as many items when they are rounded. -/
theorem IsRounding.size_eq (h : IsRounding xs ys) : ys.size = xs.size := by
  cases h with
  | ints => rfl
  | decimals p h => exact h.length_eq.symm

/-- It has items of the same kind. -/
theorem IsRounding.itemType_eq (h : IsRounding xs ys) : ys.itemType = xs.itemType := by
  cases h <;> rfl

/-- Rounding is what `rounded` does, in every list of numbers. -/
theorem isRounding_rounded (hxs : xs.itemType ≠ .text) : IsRounding xs xs.rounded := by
  cases xs with
  | ints xs => exact .ints xs
  | decimals p xs =>
    refine .decimals p (List.forall₂_map_right_iff.2 (List.forall₂_same.2 fun d _ ↦ ?_))
    exact d.isRounding_rounded p.places
  | texts xs => exact absurd rfl hxs

/-- What is read back is written as before. -/
theorem written_rounded (xs : ItemList) : xs.rounded.written = xs.written := by
  cases xs with
  | decimals p xs =>
    simp only [rounded, written, List.map_map]
    exact List.map_congr_left fun d _ ↦ d.fixed_rounded p.places
  | _ => rfl

/-- Items are written as what they are rounded to, so the rounded list is written in the same way.
-/
theorem render_rounded (xs : ItemList) : xs.rounded.render = xs.render := by
  rw [render_eq, render_eq, written_rounded]

/-- Texts that are read one by one. -/
theorem readEach_map {α β : Type} {f : List Char → Option α} {g : β → String} {h : β → α}
    (hread : ∀ b, f (g b).toList = some (h b)) (bs : List β) :
    readEach f (bs.map g) = .ok (bs.map h) := by
  induction bs with
  | nil => rfl
  | cons b bs ih =>
    rw [List.map_cons, readEach, hread, ih]
    rfl

/-- Written items are read back as what they are rounded to. -/
theorem read_written (hxs : xs.itemType ≠ .text) :
    read xs.itemType xs.written = .ok xs.rounded := by
  cases xs with
  | ints xs =>
    rw [itemType, written, read, readEach_map (h := id) Integer.read?_render, List.map_id]
    rfl
  | decimals p xs =>
    rw [itemType, written, read, readEach_map (fun d ↦ d.read?_fixed_places p)]
    rfl
  | texts xs => exact absurd rfl hxs

/-- A written number has a character, and numeric ones only. -/
theorem isNumeric_of_mem_written (hxs : xs.itemType ≠ .text) {w : String} (hw : w ∈ xs.written) :
    w.toList ≠ [] ∧ ∀ c ∈ w.toList, IsNumeric c := by
  cases xs with
  | ints xs =>
    obtain ⟨n, -, rfl⟩ := List.mem_map.1 hw
    exact ⟨render_ne_nil n, fun c hc ↦ isNumeric_of_mem_render hc⟩
  | decimals p xs =>
    obtain ⟨d, -, rfl⟩ := List.mem_map.1 hw
    exact ⟨d.toList_fixed_ne_nil p.places, fun c hc ↦ isNumeric_of_mem_fixed hc⟩
  | texts xs => exact absurd rfl hxs

end ItemList

/-! ### Items between commas -/

namespace Line

/-- Numeric text has no blanks. -/
theorem tight_of_isNumeric {w : List Char} (hw : ∀ c ∈ w, IsNumeric c) : Tight w := by
  have hblank : ∀ c ∈ w, isBlank c = false := fun c hc ↦ isBlank_of_isMark (hw c hc).isMark
  exact ⟨fun c hc ↦ hblank c (List.mem_of_mem_head? hc),
    fun c hc ↦ hblank c (List.mem_of_mem_getLast? hc)⟩

/-- What is joined begins with the first of its parts. -/
theorem exists_intercalate_cons (sep w : List Char) (ws : List (List Char)) :
    ∃ r, sep.intercalate (w :: ws) = w ++ r := by
  cases ws with
  | nil => exact ⟨[], by simp⟩
  | cons v ws => exact ⟨sep ++ sep.intercalate (v :: ws), by simp [List.intercalate_cons_cons]⟩

/-- Items with a comma and a blank between them are told apart. -/
theorem listItems_intercalate {ws : List String}
    (h : ∀ w ∈ ws, w.toList ≠ [] ∧ ∀ c ∈ w.toList, IsNumeric c) :
    listItems (", ".intercalate ws).toList = ws := by
  rw [String.toList_intercalate, show ", ".toList = [',', ' '] by decide]
  rcases ws with - | ⟨w, ws⟩
  · rfl
  -- no comma stands inside of an item, so the text is divided between items only
  have hcomma : ∀ l ∈ w.toList :: (ws.map String.toList).map (' ' :: ·), ',' ∉ l := by
    have hno : ∀ v ∈ w :: ws, ',' ∉ v.toList := fun v hv hc ↦
      absurd ((h v hv).2 ',' hc) (by decide)
    simp only [List.mem_cons, List.map_map, List.mem_map, Function.comp_apply]
    rintro l (rfl | ⟨v, hv, rfl⟩)
    · exact hno w List.mem_cons_self
    · rw [List.mem_cons, not_or]
      exact ⟨by decide, hno v (List.mem_cons_of_mem w hv)⟩
  have hne : trim ([','].intercalate (w.toList :: (ws.map String.toList).map (' ' :: ·))) ≠ [] := by
    obtain ⟨c, t, hw⟩ := List.exists_cons_of_ne_nil (h w List.mem_cons_self).1
    have hc : c ∈ w.toList := hw ▸ List.mem_cons_self
    obtain ⟨r, hr⟩ := exists_intercalate_cons [','] w.toList ((ws.map String.toList).map (' ' :: ·))
    rw [hr]
    exact trim_ne_nil (List.mem_append_left r hc)
      (isBlank_of_isMark ((h w List.mem_cons_self).2 c hc).isMark)
  have hfirst : part w.toList = w := by
    obtain ⟨hw, hnumeric⟩ := h w List.mem_cons_self
    rw [part, trim_of_tight hw (tight_of_isNumeric hnumeric), String.ofList_toList]
  have hrest : (ws.map String.toList).map (part ∘ (' ' :: ·)) = ws := by
    rw [List.map_map]
    refine (List.map_congr_left fun v hv ↦ ?_).trans (List.map_id ws)
    obtain ⟨hv, hnumeric⟩ := h v (List.mem_cons_of_mem w hv)
    have htrim : trim ([' '] ++ (v.toList ++ [])) = v.toList :=
      trim_append_append hv (tight_of_isNumeric hnumeric) (List.forall_mem_singleton.2 rfl)
        (by simp)
    show String.ofList (trim (' ' :: v.toList)) = v
    rw [List.append_nil, List.singleton_append] at htrim
    rw [htrim, String.ofList_toList]
  rw [List.map_cons, intercalate_comma_blank, listItems, if_neg hne,
    List.splitOn_intercalate ',' hcomma (List.cons_ne_nil _ _), List.map_cons, hfirst,
    List.map_map, hrest]

/-! ### The line -/

/-- The assignment of a written list, as a line. -/
def listLine (n : String) (xs : ItemList) : String := "[" ++ n ++ "]쿰척<\"" ++ xs.render ++ "\""

section Rules

variable {α : Type} {n r w : List Char} {c : Char}

/-- A rule for a variable does not fit if the first character of its word does not stand behind the
name. -/
theorem variableName_eq_none (hn : IsName n) (hc : c ∉ r) (k : List Char → Option α) :
    variableName (fun r ↦ after? (c :: w) r >>= k) ('[' :: (n ++ ']' :: r)) = none := by
  rw [variableName_eq_bracketed hn]
  refine bracketed_eq_none fun u v huv ↦ ?_
  have hv : c ∉ v := by
    obtain ⟨_ | ⟨d, u⟩, -, hu⟩ := exists_eq_append_of_not_mem hn.closer_not_mem huv
    · obtain ⟨-, rfl⟩ := List.cons.inj hu
      exact hc
    · obtain ⟨-, rfl⟩ := List.cons.inj hu
      exact fun hmem ↦ hc (List.mem_append_right u (List.mem_cons_of_mem ']' hmem))
  have hafter : after? (c :: w) v = none :=
    after?_eq_none_iff.2 fun hstart ↦ hv (hstart.subset List.mem_cons_self)
  rw [hafter]
  rfl

/-- Of the rules between those for declarations and the one for lists, none fits if the first
characters of their words do not stand behind the name. -/
theorem beforeList_eq_none (hn : IsName n) (hstep : '꿀' ∉ r) (htext : '쩝' ∉ r) :
    [incrementRule, assignTextRule, assignRule].findSome? (· ('[' :: (n ++ ']' :: r))) = none := by
  have hincrement : incrementRule ('[' :: (n ++ ']' :: r)) = none := by
    rw [incrementRule]
    show (variableName (fun r ↦ after? ('꿀' :: "꺽<".toList) r >>= restOfLine) _ >>= _) = none
    rw [variableName_eq_none hn hstep]
    rfl
  have hassignText : assignTextRule ('[' :: (n ++ ']' :: r)) = none := by
    rw [assignTextRule]
    show (variableName (fun r ↦ after? ('쩝' :: "쩝<'".toList) r >>=
      longestRun fun r ↦ after? ['\''] r >>= atEnd?) _ >>= _) = none
    rw [variableName_eq_none hn htext]
    rfl
  have hassign : assignRule ('[' :: (n ++ ']' :: r)) = none := by
    rw [assignRule]
    show (variableName (fun r ↦ after? ('꿀' :: "떡<".toList) r >>= restOfLine) _ >>= _) = none
    rw [variableName_eq_none hn hstep]
    rfl
  simp only [List.findSome?_eq_none_iff, List.forall_mem_cons]
  exact ⟨hincrement, hassignText, hassign, by simp⟩

end Rules

/-- The rule for lists takes what stands between the brackets. -/
theorem assignListRule_eq {n s : List Char} (hn : IsName n) (hline : '\n' ∉ s) :
    assignListRule ('[' :: (n ++ ']' :: ("쿰척<\"[".toList ++ (s ++ "]\"".toList)))) =
      some (statement (.assignList (String.ofList n) (listItems s))) := by
  have hrun : longestRun (after? "]\"".toList) (s ++ "]\"".toList) = some (s, []) :=
    longestRun_append hline rfl
  have hsome : variableName (fun r ↦
      after? "쿰척<\"[".toList r >>= longestRun (after? "]\"".toList))
      ('[' :: (n ++ ']' :: ("쿰척<\"[".toList ++ (s ++ "]\"".toList)))) =
      some (String.ofList n, s, []) := by
    refine variableName_of_isName hn ?_
    rw [after?_append]
    exact hrun
  rw [assignListRule]
  show (variableName _ _ >>= _) = _
  rw [hsome]
  rfl

/-- What stands in a written list of numbers: numeric characters, commas and blanks. -/
theorem mem_of_mem_intercalate {ws : List String}
    (h : ∀ w ∈ ws, w.toList ≠ [] ∧ ∀ c ∈ w.toList, IsNumeric c) {c : Char}
    (hc : c ∈ (", ".intercalate ws).toList) : IsNumeric c ∨ c = ',' ∨ c = ' ' := by
  rw [String.toList_intercalate, show ", ".toList = [',', ' '] by decide] at hc
  induction ws with
  | nil => cases hc
  | cons w ws ih =>
    have hw := (h w List.mem_cons_self).2
    cases ws with
    | nil => exact .inl (hw c (by simpa using hc))
    | cons v ws =>
      rw [List.map_cons, List.map_cons, List.intercalate_cons_cons, List.append_assoc,
        List.mem_append, List.mem_append] at hc
      rcases hc with hc | hc | hc
      · exact .inl (hw c hc)
      · exact .inr (by simpa using hc)
      · exact ih (fun u hu ↦ h u (List.mem_cons_of_mem w hu)) hc

/-- The line that assigns a list, as characters. -/
theorem toList_listLine (n : String) (xs : ItemList) :
    (listLine n xs).toList = '[' :: (n.toList ++ ']' :: ("쿰척<\"[".toList ++
      ((", ".intercalate xs.written).toList ++ "]\"".toList))) := by
  simp [listLine, ItemList.render_eq]

/-- The line of a written list of numbers is the assignment of its items. -/
theorem ofString_eq_assignList {n : String} {xs : ItemList} (hn : IsName n.toList)
    (hxs : xs.itemType ≠ .text) :
    ofString (listLine n xs) = .statement (.assignList n xs.written) := by
  have hnumeric := fun w ↦ ItemList.isNumeric_of_mem_written hxs (w := w)
  have hitems {c : Char} (hc : ¬ (IsNumeric c ∨ c = ',' ∨ c = ' ')) :
      c ∉ (", ".intercalate xs.written).toList :=
    fun hmem ↦ hc (mem_of_mem_intercalate hnumeric hmem)
  have hbehind {c : Char} (hc : ¬ (IsNumeric c ∨ c = ',' ∨ c = ' '))
      (hwords : c ∉ "쿰척<\"[".toList ++ "]\"".toList) : c ∉ "쿰척<\"[".toList ++
        ((", ".intercalate xs.written).toList ++ "]\"".toList) := by
    simp only [List.mem_append, not_or] at hwords ⊢
    exact ⟨hwords.1, hitems hc, hwords.2⟩
  have hrules : rules.drop 9 =
      [incrementRule, assignTextRule, assignRule] ++ assignListRule :: rules.drop 13 := rfl
  rw [ofString, toList_listLine, ofChars_bracket, hrules, List.findSome?_append,
    beforeList_eq_none hn (hbehind (by decide) (by decide)) (hbehind (by decide) (by decide)),
    Option.none_or, List.findSome?_cons, assignListRule_eq hn (hitems (by decide)),
    listItems_intercalate hnumeric, String.ofList_toList]
  rfl

end Line

/-! ### Running the assignment -/

/-- Of two values for one name the later one stays. -/
theorem Table.insert_insert {α : Type} (t : Table α) (name : String) (a b : α) :
    (t.insert name a).insert name b = t.insert name b := by
  simp [insert, List.filter_filter]

/-- What is written last counts. -/
theorem Store.put_put (s : Store) (name : String) (v w : Variable) :
    (s.put name v).put name w = s.put name w := by
  cases h : s.calls <;> simp [put, withTop, top, h, Table.insert_insert]

open Haklang.Action

/-- The assignment of items that can be read stores the list in a variable of its type. -/
theorem Tree.run_assignList (call : Callee) (id : Nat) (line : SourceLine) {n : String}
    {items : List String} {ys : ItemList} {t : ItemType} {m : Machine} {v : Variable}
    (hread : ItemList.read t items = .ok ys) (hv : m.store.lookup? n = some v)
    (ht : v.tag = .list t) :
    (Tree.statement id line (.assignList n items)).run call m =
      .ok .next { m with store := m.store.put n { v with value := .list ys } } := by
  obtain ⟨value, tag, shielded⟩ := v
  obtain rfl : tag = .list t := ht
  have hset : m.store.set n (.list ys) =
      (.ok (), m.store.put n { value := .list ys, tag := .list t, shielded }) := by
    refine Store.update_of_ok hv ?_
    rw [Value.convert?, if_pos (ItemList.itemType_of_read hread)]
  have hassign : Statement.assignItems n items m =
      .ok () { m with store := m.store.put n { value := .list ys, tag := .list t, shielded } } := by
    rw [Statement.assignItems, bind_of_ok (read_get_of_some hv)]
    simp only [hread]
    exact change_of_ok hset
  rw [Tree.run]
  refine within_of_ok ?_ line
  rw [Statement.run, bind_of_ok hassign]
  rfl

namespace Line

/-- Printed lists read back. The line that assigns a written list of numbers to a plain name is the
assignment of a list. Running it, where the name stands for a variable for lists of this type,
stores a list of the same type and length: integers are the same, and every decimal is the one
before, rounded half to even to the places of its precision. What is stored is written in the same
way, so the line for it is the same line, and running that one changes nothing any more. -/
theorem ofString_listLine {n : String} {xs : ItemList} (hn : IsName n.toList)
    (hxs : xs.itemType ≠ .text) :
    ∃ items ys, ofString (listLine n xs) = .statement (.assignList n items) ∧
      ItemList.IsRounding xs ys ∧ ys.itemType = xs.itemType ∧ ys.size = xs.size ∧
      ys.render = xs.render ∧ listLine n ys = listLine n xs ∧
      ∀ (call : Callee) (id : Nat) (line : SourceLine) (m : Machine) (v : Variable),
        m.store.lookup? n = some v → v.tag = .list xs.itemType →
        let stored := { m with store := m.store.put n { v with value := .list ys } }
        (Tree.statement id line (.assignList n items)).run call m = .ok .next stored ∧
          stored.store.lookup? n = some { v with value := .list ys } ∧
          (Tree.statement id line (.assignList n items)).run call stored = .ok .next stored := by
  have hrounding := ItemList.isRounding_rounded hxs
  have hread := ItemList.read_written hxs
  refine ⟨xs.written, xs.rounded, ofString_eq_assignList hn hxs, hrounding, hrounding.itemType_eq,
    hrounding.size_eq, xs.render_rounded, by rw [listLine, xs.render_rounded, listLine],
    fun call id line m v hv ht ↦ ?_⟩
  have hstored : (m.store.put n { v with value := .list xs.rounded }).lookup? n =
      some { v with value := .list xs.rounded } := by
    rw [Store.lookup?_put, if_pos rfl]
  refine ⟨Tree.run_assignList call id line hread hv ht, hstored, ?_⟩
  have hagain := Tree.run_assignList call id line (v := { v with value := .list xs.rounded })
    (m := { m with store := m.store.put n { v with value := .list xs.rounded } }) hread hstored ht
  rwa [Store.put_put] at hagain

/-- Two decimals in the middle between others, one of which is rounded to zero, and one that gets
more places. -/
theorem ofString_listLine_decimals :
    let xs : ItemList := .decimals .seven [⟨-5, 8⟩, ⟨15, 8⟩, ⟨307, 1⟩]
    let v : Variable :=
      { value := .list (.decimals .seven []), tag := .list (.decimal .seven), shielded := true }
    let m : Machine := { generator := .ofSeed 0, store := ({} : Store).put "a" v }
    IsName "a".toList ∧ xs.itemType ≠ .text ∧
      listLine "a" xs = "[a]쿰척<\"[0.0000000, 0.0000002, 30.7000000]\"" ∧
      ∃ items ys, ofString (listLine "a" xs) = .statement (.assignList "a" items) ∧
        ItemList.IsRounding xs ys ∧
        (Tree.statement 0 ⟨1, ""⟩ (.assignList "a" items)).run (callFunction 5) m =
          .ok .next { m with store := m.store.put "a" { v with value := .list ys } } := by
  intro xs v m
  have hname : IsName "a".toList := ⟨by decide, List.forall_mem_singleton.2 (by decide)⟩
  have hxs : xs.itemType ≠ .text := by decide
  obtain ⟨items, ys, hline, hrounding, -, -, -, -, hrun⟩ := ofString_listLine hname hxs
  have hv : m.store.lookup? "a" = some v := by rw [Store.lookup?_put, if_pos rfl]
  exact ⟨hname, hxs, by decide +kernel, items, ys, hline, hrounding,
    (hrun (callFunction 5) 0 ⟨1, ""⟩ m v hv rfl).1⟩

end Line

end Haklang
