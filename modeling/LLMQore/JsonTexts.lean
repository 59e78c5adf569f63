import LLMQore.Json

/-!
# LLMQore.JsonTexts

Texts in texts, and in the strings of JSON values.

The text of an object stands in braces and on one line. So it is part of texts that are put
together, with other words or with line breaks between them, only where it is part of one of
them (`Braced.partOf_append`, `Braced.partOf_join`).
-/

namespace LLMQore

/-! ### Infixes of lists -/

section Infix

variable {α : Type} {c : α} {l a b : List α}

/-- An infix that begins with what the first part does not have is in the second. -/
theorem infix_right_of_notMem (h : c :: l <:+: a ++ b) (hc : c ∉ a) : c :: l <:+: b := by
  obtain ⟨s, t, h⟩ := h
  rw [List.append_assoc] at h
  obtain ⟨a', rfl, hb⟩ | ⟨s', rfl, rfl⟩ := List.append_eq_append_iff.mp h
  · cases a' with
    | nil => exact ⟨[], t, hb⟩
    | cons x a' =>
        obtain ⟨rfl, -⟩ := List.cons.inj hb
        exact absurd (List.mem_append_right _ (.head _)) hc
  · exact ⟨s', t, by simp⟩

/-- An infix that ends with what the second part does not have is in the first. -/
theorem infix_left_of_notMem (h : l ++ [c] <:+: a ++ b) (hc : c ∉ b) : l ++ [c] <:+: a := by
  have hrev := List.reverse_infix.mpr h
  rw [List.reverse_append, List.reverse_append, List.reverse_singleton] at hrev
  have hleft := infix_right_of_notMem hrev (by rwa [List.mem_reverse])
  rw [← List.reverse_infix, List.reverse_append, List.reverse_singleton]
  exact hleft

/-- An infix without the separator is on one side of it. -/
theorem infix_of_notMem (hl : l ≠ []) (hc : c ∉ l) (h : l <:+: a ++ c :: b) :
    l <:+: a ∨ l <:+: b := by
  obtain ⟨s, t, h⟩ := h
  obtain ⟨a', rfl, -⟩ | ⟨s', hs, hb⟩ := List.append_eq_append_iff.mp h
  · exact .inl ⟨s, a', rfl⟩
  · cases s' with
    | nil => exact .inl ⟨s, [], by simpa using hs⟩
    | cons x s' =>
        obtain ⟨rfl, rfl⟩ := List.cons.inj hb
        obtain ⟨a', rfl, hl'⟩ | ⟨s'', rfl, hs'⟩ := List.append_eq_append_iff.mp hs
        · exact absurd (hl' ▸ List.mem_append_right _ (.head _)) hc
        · cases s'' with
          | nil =>
              obtain rfl : c :: s' = l := hs'
              exact absurd (.head _) hc
          | cons y s'' =>
              obtain ⟨-, rfl⟩ := List.cons.inj hs'
              exact .inr ⟨s'', t, by simp⟩

end Infix

/-! ### Texts -/

/-- `QString::contains`: the text is part of the other. -/
def PartOf (text s : String) : Prop := text.toList <:+: s.toList

namespace PartOf

variable {text s s' : String}

theorem refl (text : String) : PartOf text text := List.infix_refl _

theorem empty (s : String) : PartOf "" s := List.nil_infix

theorem append_left (h : PartOf text s') : PartOf text (s ++ s') := by
  rw [PartOf, String.toList_append]
  exact List.infix_append_of_infix_right h

theorem append_right (h : PartOf text s) : PartOf text (s ++ s') := by
  rw [PartOf, String.toList_append]
  exact List.infix_append_of_infix_left h

theorem join {texts : List String} {sep : String} (hs : s ∈ texts) (h : PartOf text s) :
    PartOf text (sep.intercalate texts) := by
  induction texts with
  | nil => cases hs
  | cons first rest ih =>
      cases rest with
      | nil =>
          obtain rfl := List.mem_singleton.mp hs
          rwa [String.intercalate_singleton]
      | cons second rest =>
          rw [String.intercalate_cons_cons]
          rcases List.mem_cons.mp hs with rfl | hs
          · exact (h.append_right).append_right
          · exact (ih hs).append_left

end PartOf

/-- In braces, and on one line. -/
structure Braced (text : String) : Prop where
  braces : ∃ body, text.toList = '{' :: (body ++ ['}'])
  line : '\n' ∉ text.toList

/-- Words without a brace. -/
def Braceless (s : String) : Prop := '{' ∉ s.toList ∧ '}' ∉ s.toList

instance (s : String) : Decidable (Braceless s) :=
  inferInstanceAs (Decidable ('{' ∉ s.toList ∧ '}' ∉ s.toList))

namespace Braced

variable {text s s' : String}

theorem ne_nil (h : Braced text) : text.toList ≠ [] := by
  obtain ⟨body, hbody⟩ := h.braces
  rw [hbody]
  exact List.cons_ne_nil _ _

/-- Words without braces in front of a text add nothing braced. -/
theorem partOf_append_left (h : Braced text) (hs : Braceless s) :
    PartOf text (s ++ s') ↔ PartOf text s' := by
  refine ⟨fun hpart => ?_, .append_left⟩
  obtain ⟨body, hbody⟩ := h.braces
  rw [PartOf, String.toList_append, hbody] at hpart
  rw [PartOf, hbody]
  exact infix_right_of_notMem hpart hs.1

/-- Words without braces after a text add nothing braced. -/
theorem partOf_append_right (h : Braced text) (hs : Braceless s') :
    PartOf text (s ++ s') ↔ PartOf text s := by
  refine ⟨fun hpart => ?_, .append_right⟩
  obtain ⟨body, hbody⟩ := h.braces
  rw [PartOf, String.toList_append, hbody, ← List.cons_append] at hpart
  rw [PartOf, hbody, ← List.cons_append]
  exact infix_left_of_notMem hpart hs.2

theorem not_partOf (h : Braced text) (hs : Braceless s) : ¬PartOf text s := by
  intro hpart
  obtain ⟨body, hbody⟩ := h.braces
  rw [PartOf, hbody] at hpart
  exact hs.1 (hpart.subset (.head _))

/-- A braced text is in joined lines where it is in one of them. -/
theorem partOf_join (h : Braced text) (texts : List String) :
    PartOf text ("\n".intercalate texts) ↔ ∃ s ∈ texts, PartOf text s := by
  refine ⟨fun hpart => ?_, fun ⟨s, hs, hpart⟩ => hpart.join hs⟩
  induction texts with
  | nil => exact absurd (List.infix_nil.mp hpart) h.ne_nil
  | cons first rest ih =>
      cases rest with
      | nil =>
          rw [String.intercalate_singleton] at hpart
          exact ⟨first, .head _, hpart⟩
      | cons second rest =>
          rw [String.intercalate_cons_cons, PartOf, String.toList_append, String.toList_append,
            List.append_assoc] at hpart
          rcases infix_of_notMem h.ne_nil h.line hpart with hpart | hpart
          · exact ⟨first, .head _, hpart⟩
          · obtain ⟨s, hs, hpart⟩ := ih hpart
            exact ⟨s, .tail _ hs, hpart⟩

end Braced

/-! ### The strings of a JSON value -/

mutual
/-- The text is part of one of the strings of the value. -/
def JsonValue.Shows (text : String) : JsonValue → Prop
  | .str s => PartOf text s
  | .arr xs => ShowsItems text xs
  | .obj fields => ShowsFields text fields
  | .undefined | .null | .bool _ | .num _ => False
def JsonValue.ShowsItems (text : String) : List JsonValue → Prop
  | [] => False
  | x :: rest => x.Shows text ∨ ShowsItems text rest
def JsonValue.ShowsFields (text : String) : List (String × JsonValue) → Prop
  | [] => False
  | (_, v) :: rest => v.Shows text ∨ ShowsFields text rest
end

namespace JsonValue

variable {text : String}

@[simp] theorem shows_str (s : String) : (str s).Shows text ↔ PartOf text s := Iff.rfl

@[simp] theorem shows_undefined : undefined.Shows text ↔ False := Iff.rfl

@[simp] theorem shows_bool (b : Bool) : (bool b).Shows text ↔ False := Iff.rfl

theorem showsItems_iff (xs : List JsonValue) : ShowsItems text xs ↔ ∃ x ∈ xs, x.Shows text := by
  induction xs with
  | nil => exact iff_of_false id (by simp)
  | cons x rest ih =>
      rw [List.exists_mem_cons_iff, ← ih]
      exact Iff.rfl

theorem shows_arr (xs : List JsonValue) : (arr xs).Shows text ↔ ∃ x ∈ xs, x.Shows text :=
  showsItems_iff xs

theorem showsFields_iff (fields : JsonObject) :
    ShowsFields text fields ↔ ∃ f ∈ fields, f.2.Shows text := by
  induction fields with
  | nil => exact iff_of_false id (by simp)
  | cons f rest ih =>
      rw [List.exists_mem_cons_iff, ← ih]
      exact Iff.rfl

theorem shows_obj (fields : JsonObject) :
    (obj fields).Shows text ↔ ∃ f ∈ fields, f.2.Shows text :=
  showsFields_iff fields

@[simp] theorem shows_empty : (obj []).Shows text ↔ False := by
  simp [shows_obj]

theorem mem_place {o : JsonObject} {key : String} (v : JsonValue) (h : o.contains key = false)
    (f : String × JsonValue) : f ∈ JsonObject.place key v o ↔ f = (key, v) ∨ f ∈ o := by
  induction o with
  | nil => simp [JsonObject.place]
  | cons g rest ih =>
      obtain ⟨k, w⟩ := g
      rw [JsonObject.contains, List.any_cons, Bool.or_eq_false_iff] at h
      rw [JsonObject.place]
      split
      · simp
      · split
        · rename_i heq
          exact absurd heq.symm (by simpa using h.1)
        · rw [List.mem_cons, ih h.2, List.mem_cons]
          exact or_left_comm

/-- A new field shows what its value shows. -/
theorem shows_insert {o : JsonObject} {key : String} {v : JsonValue}
    (h : o.contains key = false) (hv : v.isUndefined = false) :
    (obj (o.insert key v)).Shows text ↔ v.Shows text ∨ (obj o).Shows text := by
  rw [JsonObject.insert_eq_place o key hv, shows_obj, shows_obj]
  simp only [mem_place v h]
  constructor
  · rintro ⟨f, rfl | hf, hshows⟩
    · exact .inl hshows
    · exact .inr ⟨f, hf, hshows⟩
  · rintro (hshows | ⟨f, hf, hshows⟩)
    · exact ⟨_, .inl rfl, hshows⟩
    · exact ⟨f, .inr hf, hshows⟩

theorem shows_foldl_insert {fields : List (String × JsonValue)} {o : JsonObject}
    (hnodup : (fields.map (·.1)).Nodup) (hnew : ∀ f ∈ fields, o.contains f.1 = false)
    (hdef : ∀ f ∈ fields, f.2.isUndefined = false) :
    (obj (fields.foldl (fun o f => JsonObject.insert o f.1 f.2) o)).Shows text ↔
      (obj o).Shows text ∨ ∃ f ∈ fields, f.2.Shows text := by
  induction fields generalizing o with
  | nil => simp
  | cons f rest ih =>
      rw [List.map_cons, List.nodup_cons] at hnodup
      obtain ⟨hf, hrest⟩ := List.forall_mem_cons.mp hdef
      obtain ⟨hfnew, hrestnew⟩ := List.forall_mem_cons.mp hnew
      rw [List.foldl_cons, ih hnodup.2 (fun g hg => ?_) hrest, shows_insert hfnew hf]
      · simp only [List.mem_cons, exists_eq_or_imp]
        rw [or_assoc, or_left_comm]
      · rw [JsonObject.contains_insert o _ _ hf, hrestnew g hg, Bool.or_false, beq_eq_false_iff_ne]
        intro he
        exact hnodup.1 (he ▸ List.mem_map_of_mem hg)

/-- An object shows what its fields show. -/
theorem shows_ofFields {fields : List (String × JsonValue)} (hnodup : (fields.map (·.1)).Nodup)
    (hdef : ∀ f ∈ fields, f.2.isUndefined = false) :
    (obj (JsonObject.ofFields fields)).Shows text ↔ ∃ f ∈ fields, f.2.Shows text := by
  unfold JsonObject.ofFields
  rw [shows_foldl_insert hnodup (fun _ _ => rfl) hdef, shows_empty, false_or]

end JsonValue

end LLMQore
