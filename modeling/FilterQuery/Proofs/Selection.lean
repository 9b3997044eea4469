import FilterQuery.Compilation.Selection
import FilterQuery.Schema.Builtin

/-!
# What a selection can be

A selection is one of three things: a scalar field under its own name, a composite field with
attributes of its own, or an entry of a map field under a key (`select_cases`). So the key, the
field and the path of a selection fit together: only a map has a key, the key is matched at a member
of the entry, and the path of what is compared goes on behind that of the field.

Later modules take a selection apart by its cases and never unfold how it is found. The fields of
the built-in target that examples select stand at the end.
-/

namespace FilterQuery

namespace Schema

variable {schema : Schema} {selector : String} {selection : Selection}

/-- The three kinds of selections, with all their parts. -/
theorem select_cases (h : schema.select selector = .ok selection) :
    ∃ name segments field, Text.split '.' selector = name :: segments ∧
      schema.field? name = some field ∧
      ((∃ type, field.kind = .scalar type ∧ segments = [] ∧
          selection = ⟨field, field.path, type, none⟩) ∨
        (∃ declared attributes, field.kind = .composite declared ∧
          segments.mapM field.attribute? = some attributes ∧
          selectAttributes field attributes = some selection) ∨
        ∃ keyMember valueMember type key, field.kind = .map keyMember valueMember type ∧
          segments = [key] ∧ key ≠ "" ∧
          selection = ⟨field, field.path, type, some ⟨field.path.child keyMember, key⟩⟩) := by
  -- the branches are those of the resolution; one of each kind accepts the selector
  unfold select at h
  split at h
  · simp at h
  · next name segments hsplit =>
    split at h
    · simp at h
    · next field hfield =>
      refine ⟨name, segments, field, hsplit, hfield, ?_⟩
      split at h
      · next type hkind =>
        split at h
        · next hempty =>
          cases h
          exact .inl ⟨type, hkind, List.isEmpty_iff.mp hempty, rfl⟩
        · simp at h
      · next declared hkind =>
        split at h
        · next found hfound =>
          cases h
          obtain ⟨attributes, hattributes, hselected⟩ := Option.bind_eq_some_iff.mp hfound
          exact .inr (.inl ⟨declared, attributes, hkind, hattributes, hselected⟩)
        · simp at h
      · next keyMember valueMember type hkind =>
        split at h
        · next key =>
          split at h
          · simp at h
          · next hkey =>
            cases h
            exact .inr (.inr ⟨keyMember, valueMember, type, key, hkind, rfl, hkey, rfl⟩)
        · simp at h

/-- The field of a selection is found by the first piece of the selector. -/
theorem field?_of_select (h : schema.select selector = .ok selection) :
    ∃ name segments, Text.split '.' selector = name :: segments ∧
      schema.field? name = some selection.field := by
  obtain ⟨name, segments, field, hsplit, hfield, hcases⟩ := select_cases h
  refine ⟨name, segments, hsplit, ?_⟩
  rcases hcases with ⟨type, -, -, rfl⟩ | ⟨declared, attributes, -, -, hselected⟩ |
    ⟨keyMember, valueMember, type, key, -, -, -, rfl⟩
  · exact hfield
  · obtain ⟨last, -, rfl⟩ := Option.map_eq_some_iff.mp hselected
    exact hfield
  · exact hfield

/-- A selection with a key is an entry of a map field, any other is none. -/
theorem key?_cases (h : schema.select selector = .ok selection) :
    (selection.key? = none ∧ selection.field.isMap = false) ∨
      ∃ keyMember valueMember type key, selection.field.kind = .map keyMember valueMember type ∧
        selection.key? = some ⟨selection.path.child keyMember, key⟩ := by
  obtain ⟨name, segments, field, -, -, hcases⟩ := select_cases h
  rcases hcases with ⟨type, hkind, -, rfl⟩ | ⟨declared, attributes, hkind, -, hselected⟩ |
    ⟨keyMember, valueMember, type, key, hkind, -, -, rfl⟩
  · exact .inl ⟨rfl, by simp [Field.isMap, hkind]⟩
  · obtain ⟨last, -, rfl⟩ := Option.map_eq_some_iff.mp hselected
    exact .inl ⟨rfl, by simp [Field.isMap, hkind]⟩
  · exact .inr ⟨keyMember, valueMember, type, key, hkind, rfl⟩

/-- Without a key, the selected values are those at the path of the selection. -/
theorem valuePath_of_key?_eq_none (h : schema.select selector = .ok selection)
    (hkey : selection.key? = none) : selection.valuePath = selection.path := by
  rcases key?_cases h with ⟨-, hmap⟩ | ⟨keyMember, valueMember, type, key, -, hsome⟩
  · unfold Selection.valuePath Field.valueMember?
    cases hkind : selection.field.kind with
    | map _ _ _ => simp [Field.isMap, hkind] at hmap
    | _ => rfl
  · simp [hkey] at hsome

end Schema

/-! ### Fields of targets -/

/-- The name of a target is text that is compared by pattern. -/
theorem select_target_name : Schema.target.select "name" =
    .ok ⟨.scalar "NAME" "name" .string, ⟨["name"]⟩, .string, none⟩ := by
  rfl

/-- The time at which a target was created is a whole number. -/
theorem select_target_createdat : Schema.target.select "createdat" =
    .ok ⟨.scalar "CREATEDAT" "createdAt" .int64, ⟨["createdAt"]⟩, .int64, none⟩ := by
  rfl

/-- The attributes of a target are in a map with texts as values. -/
theorem select_target_attribute : Schema.target.select "attribute.os" =
    .ok ⟨.map "ATTRIBUTE" "controllerAttributes" "key" (some "value") .string,
      ⟨["controllerAttributes"]⟩, .string, some ⟨⟨["controllerAttributes", "key"]⟩, "os"⟩⟩ := by
  rfl

end FilterQuery
