import EventSchema.Json.Reader
import EventSchema.Proofs.Numerals

/-!
# Printing

The indented text of a value determines the value.  Each value is found again in
front of what follows its text: a string since the reader of strings reads back
what was escaped, up to the closing quote; a number since a comma or a new line
follows it, and no number goes on with one; an array or an object part by part.
-/

namespace EventSchema

/-! ## Strings -/

namespace Reader

section Reads

variable {α β : Type} {reader : Reader α} {s r t : List Char} {x : α}

/-- A reader takes a value off the front of a text and leaves the rest. -/
def Reads (reader : Reader α) (s : List Char) (x : α) (r : List Char) : Prop :=
  ∃ hle, reader s = .ok ⟨x, r, hle⟩

theorem Reads.unique {y : α} (hx : Reads reader s x r) (hy : Reads reader s y t) :
    x = y ∧ r = t := by
  obtain ⟨hle, hx⟩ := hx
  obtain ⟨hle', hy⟩ := hy
  rw [hx] at hy
  cases hy
  exact ⟨rfl, rfl⟩

theorem Reads.bind {next : α → Reader β} {y : β} (hfirst : Reads reader s x r)
    (hsecond : Reads (next x) r y t) : Reads (reader >>= next) s y t := by
  obtain ⟨hle, hfirst⟩ := hfirst
  obtain ⟨hle', hsecond⟩ := hsecond
  refine ⟨Nat.le_trans hle' hle, ?_⟩
  simp only [Bind.bind, hfirst, hsecond]

end Reads

variable {c : Char} {s letters value rest : List Char}

theorem hexValue_hexDigit : ∀ n < 16, hexValue (Json.hexDigit n) = some n := by
  decide

/-- A character that is escaped by its number is read back. -/
theorem reads_hexEscape (h : c.toNat < 32) :
    Reads hexEscape ('0' :: '0' :: Json.hexDigit (c.toNat / 16) ::
      Json.hexDigit (c.toNat % 16) :: s) c s := by
  have hunit : hexUnit? ('0' :: '0' :: Json.hexDigit (c.toNat / 16) ::
      Json.hexDigit (c.toNat % 16) :: s) = some c.toNat := by
    rw [hexUnit?, hexValue_hexDigit _ (by omega), hexValue_hexDigit _ (by omega)]
    change some (256 * (16 * 0 + 0) + (16 * (c.toNat / 16) + c.toNat % 16)) = some c.toNat
    congr 1
    omega
  have hread : Reads hexUnit ('0' :: '0' :: Json.hexDigit (c.toNat / 16) ::
      Json.hexDigit (c.toNat % 16) :: s) c.toNat s := by
    refine ⟨by simp; omega, ?_⟩
    rw [hexUnit, hunit]
    rfl
  refine hread.bind ?_
  rw [if_neg (by omega), if_neg (by omega), Char.ofNat_toNat]
  exact ⟨Nat.le_refl _, rfl⟩

theorem reads_escaped_u (h : Reads hexEscape letters c s) : Reads escaped ('u' :: letters) c s :=
  Reads.bind ⟨Nat.le_refl _, rfl⟩ (Reads.bind ⟨Nat.le_succ _, rfl⟩ h)

theorem reads_stringBody_escaped (h : Reads escaped letters c s)
    (hrest : Reads stringBody s value rest) :
    Reads stringBody ('\\' :: letters) (c :: value) rest := by
  obtain ⟨hle, hread⟩ := h
  obtain ⟨hle', hrest⟩ := hrest
  refine ⟨by simp; omega, ?_⟩
  rw [stringBody, if_neg (by decide), if_neg (by decide), if_pos rfl]
  simp only [hread, hrest]

theorem reads_stringBody_escape (c : Char) (h : Reads stringBody s value rest) :
    Reads stringBody (Json.escape c ++ s) (c :: value) rest := by
  rw [Json.escape]
  split_ifs with hquote hbackslash hfeed hreturn htab hback hform hcontrol
  · subst hquote
    exact reads_stringBody_escaped ⟨by simp, rfl⟩ h
  · subst hbackslash
    exact reads_stringBody_escaped ⟨by simp, rfl⟩ h
  · subst hfeed
    exact reads_stringBody_escaped ⟨by simp, rfl⟩ h
  · subst hreturn
    exact reads_stringBody_escaped ⟨by simp, rfl⟩ h
  · subst htab
    exact reads_stringBody_escaped ⟨by simp, rfl⟩ h
  · have hc : c = Char.ofNat 8 := by rw [← hback, Char.ofNat_toNat]
    subst hc
    exact reads_stringBody_escaped ⟨by simp, rfl⟩ h
  · have hc : c = Char.ofNat 12 := by rw [← hform, Char.ofNat_toNat]
    subst hc
    exact reads_stringBody_escaped ⟨by simp, rfl⟩ h
  · exact reads_stringBody_escaped (reads_escaped_u (reads_hexEscape hcontrol)) h
  · obtain ⟨hle, hrest⟩ := h
    rw [List.singleton_append]
    refine ⟨by simp; omega, ?_⟩
    rw [stringBody, if_neg hquote, if_neg hcontrol, if_neg hbackslash]
    simp only [hrest]

/-- A string is read back from its escapes, up to the quote that closes it. -/
theorem reads_stringBody (value s : List Char) :
    Reads stringBody (value.flatMap Json.escape ++ '"' :: s) value s := by
  induction value with
  | nil =>
      rw [List.flatMap_nil, List.nil_append]
      refine ⟨by simp, ?_⟩
      rw [stringBody]
      rfl
  | cons c value ih =>
      rw [List.flatMap_cons, List.append_assoc]
      exact reads_stringBody_escape c ih

end Reader

namespace Json

/-- A string in quotes is found again in front of any text. -/
theorem quoted_append_inj {a b : String} {r s : List Char}
    (h : (quoted a).toList ++ r = (quoted b).toList ++ s) : a = b ∧ r = s := by
  have hquoted : ∀ (value : String) (rest : List Char), (quoted value).toList ++ rest =
      '"' :: (value.toList.flatMap escape ++ '"' :: rest) := by
    intro value rest
    simp [quoted]
  rw [hquoted, hquoted, List.cons.injEq] at h
  have hfirst := Reader.reads_stringBody a.toList r
  rw [h.2] at hfirst
  obtain ⟨hvalue, hrest⟩ := hfirst.unique (Reader.reads_stringBody b.toList s)
  exact ⟨String.toList_inj.mp hvalue, hrest⟩

/-! ## Values that end by themselves -/

section Blocks

variable {α : Type} {text : α → String} {items others : List α} {opening closing : String}
  {level : ℕ} {r s : List Char}

/-- The text of a value is found again in front of any text that does not continue a number. -/
def Delimited (text : α → String) (value : α) : Prop :=
  ∀ other r s, Ends isNumeral r → Ends isNumeral s →
    (text value).toList ++ r = (text other).toList ++ s → value = other ∧ r = s

theorem delimited_number (value : Number) : Delimited Number.text value := by
  intro other r s hr hs h
  obtain ⟨htext, hrest⟩ := append_inj_of_ends (fun _ => Number.isNumeral_of_mem_text)
    (fun _ => Number.isNumeral_of_mem_text) hr hs h
  exact ⟨Number.eq_of_text (String.toList_inj.mp htext), hrest⟩

/-- The start of a line. -/
def line (depth : ℕ) : List Char :=
  '\n' :: List.replicate (2 * depth) ' '

/-- What follows the first part of a block: the other parts, each after a comma, and the end. -/
def following (closing : String) (level : ℕ) (parts : List String) : List Char :=
  parts.flatMap (fun part => ',' :: (line (level + 1) ++ part.toList)) ++
    (line level ++ closing.toList)

/-- What follows the opening of a block. -/
def inside (closing : String) (level : ℕ) : List String → List Char
  | [] => closing.toList
  | part :: parts => line (level + 1) ++ (part.toList ++ following closing level parts)

theorem ends_following (closing : String) (level : ℕ) (parts : List String) (r : List Char) :
    Ends isNumeral (following closing level parts ++ r) := by
  cases parts with
  | nil =>
      intro c hc
      cases hc
      rfl
  | cons part parts =>
      intro c hc
      cases hc
      rfl

theorem toList_intercalate_cons (separator part : String) (parts : List String) :
    (separator.intercalate (part :: parts)).toList =
      part.toList ++ parts.flatMap fun next => separator.toList ++ next.toList := by
  induction parts generalizing part with
  | nil => rw [String.intercalate_singleton, List.flatMap_nil, List.append_nil]
  | cons next parts ih =>
      rw [String.intercalate_cons_cons, String.toList_append, String.toList_append, ih,
        List.flatMap_cons, List.append_assoc, List.append_assoc]

theorem toList_block (opening closing : String) (level : ℕ) (parts : List String) :
    (block opening closing level parts).toList = opening.toList ++ inside closing level parts := by
  have hline : ∀ depth, ("\n" ++ "".pushn ' ' (2 * depth)).toList = line depth := by
    intro depth
    rw [String.toList_append, toList_pushn]
    rfl
  cases parts with
  | nil => exact String.toList_append
  | cons part parts =>
      rw [block, if_neg (by simp)]
      simp only [String.toList_append, toList_intercalate_cons, inside, following, ← hline,
        List.append_assoc]
      rfl

/-- The parts after the first one are found again in front of any text. -/
theorem following_append_inj (hitems : ∀ item ∈ items, Delimited text item)
    (h : following closing level (items.map text) ++ r =
      following closing level (others.map text) ++ s) :
    items = others ∧ r = s := by
  induction items generalizing others with
  | nil =>
      cases others with
      | nil => exact ⟨rfl, List.append_cancel_left h⟩
      | cons other others => cases h
  | cons item items ih =>
      cases others with
      | nil => cases h
      | cons other others =>
          obtain ⟨hitem, hrest⟩ := List.forall_mem_cons.mp hitems
          have hsplit : ∀ part parts t, following closing level (part :: parts) ++ t =
              (',' :: line (level + 1)) ++
                (part.toList ++ (following closing level parts ++ t)) := by
            intro part parts t
            simp [following]
          rw [List.map_cons, List.map_cons, hsplit, hsplit] at h
          -- What follows a part starts with a comma or a new line, so the part can be cut off.
          obtain ⟨hsame, hfollowing⟩ := hitem other _ _ (ends_following closing level _ r)
            (ends_following closing level _ s) (List.append_cancel_left h)
          obtain ⟨hothers, hr⟩ := ih hrest hfollowing
          exact ⟨by rw [hsame, hothers], hr⟩

/-- The parts of a block are found again in front of any text. -/
theorem block_append_inj (hitems : ∀ item ∈ items, Delimited text item)
    (hclosing : ∀ s t, closing.toList ++ s ≠ '\n' :: t)
    (h : (block opening closing level (items.map text)).toList ++ r =
      (block opening closing level (others.map text)).toList ++ s) :
    items = others ∧ r = s := by
  rw [toList_block, toList_block, List.append_assoc, List.append_assoc] at h
  have hinside := List.append_cancel_left h
  cases items with
  | nil =>
      cases others with
      | nil => exact ⟨rfl, List.append_cancel_left hinside⟩
      | cons other others => exact absurd hinside (hclosing _ _)
  | cons item items =>
      cases others with
      | nil => exact absurd hinside.symm (hclosing _ _)
      | cons other others =>
          obtain ⟨hitem, hrest⟩ := List.forall_mem_cons.mp hitems
          simp only [List.map_cons, inside, List.append_assoc] at hinside
          obtain ⟨hsame, hfollowing⟩ := hitem other _ _ (ends_following closing level _ r)
            (ends_following closing level _ s) (List.append_cancel_left hinside)
          obtain ⟨hothers, hr⟩ := following_append_inj hrest hfollowing
          exact ⟨by rw [hsame, hothers], hr⟩

end Blocks

/-! ## Indented texts -/

/-- The text of a member at a level. -/
def memberText (level : ℕ) (member : String × Json) : String :=
  quoted member.1 ++ ": " ++ member.2.indented level

theorem indentedItems_eq_map (level : ℕ) (items : List Json) :
    indentedItems level items = items.map (indented level) := by
  induction items with
  | nil => rfl
  | cons item items ih => rw [indentedItems, ih, List.map_cons]

theorem indentedMembers_eq_map (level : ℕ) (members : List (String × Json)) :
    indentedMembers level members = members.map (memberText level) := by
  induction members with
  | nil => rfl
  | cons member members ih => rw [indentedMembers, ih, List.map_cons, memberText]

/-- The character that the text of a value starts with, where it is no number. -/
def opener : Json → Option Char
  | .null => some 'n'
  | .bool value => some (if value then 't' else 'f')
  | .num _ => none
  | .str _ => some '"'
  | .arr _ => some '['
  | .obj _ => some '\x7b'

theorem exists_opener (level : ℕ) (json : Json) : ∃ c rest,
    (json.indented level).toList = c :: rest ∧
      json.opener = if isNumeral c then none else some c := by
  cases json with
  | null => exact ⟨'n', ['u', 'l', 'l'], by simp [indented], rfl⟩
  | bool value =>
      cases value with
      | false => exact ⟨'f', ['a', 'l', 's', 'e'], by simp [indented], rfl⟩
      | true => exact ⟨'t', ['r', 'u', 'e'], by simp [indented], rfl⟩
  | num value =>
      obtain ⟨c, rest, htext⟩ := List.exists_cons_of_ne_nil value.toList_text_ne_nil
      have hc : isNumeral c = true := Number.isNumeral_of_mem_text (by rw [htext]; simp)
      exact ⟨c, rest, htext, by rw [hc]; rfl⟩
  | str value => exact ⟨'"', _, by rw [indented, quoted]; simp; rfl, rfl⟩
  | arr items => exact ⟨'[', _, toList_block "[" _ _ _, rfl⟩
  | obj members => exact ⟨'\x7b', _, toList_block "\x7b" _ _ _, rfl⟩

/-- Texts that start in the same way are texts of values of one kind. -/
theorem opener_eq_of_append {a b : Json} {level : ℕ} {r s : List Char}
    (h : (a.indented level).toList ++ r = (b.indented level).toList ++ s) :
    a.opener = b.opener := by
  obtain ⟨c, rest, htext, hopener⟩ := exists_opener level a
  obtain ⟨c', rest', htext', hopener'⟩ := exists_opener level b
  rw [htext, htext', List.cons_append, List.cons_append, List.cons.injEq] at h
  rw [hopener, hopener', h.1]

theorem Delimited.member {level : ℕ} {value : Json} (h : Delimited (indented level) value)
    (key : String) : Delimited (memberText level) (key, value) := by
  intro other r s hr hs htext
  obtain ⟨key', value'⟩ := other
  simp only [memberText, String.toList_append, List.append_assoc] at htext
  obtain ⟨hkey, hrest⟩ := quoted_append_inj htext
  obtain ⟨hvalue, hr⟩ := h value' r s hr hs (List.append_cancel_left hrest)
  exact ⟨by rw [hkey, hvalue], hr⟩

mutual

/-- The indented text of a value is found again in front of any text that does not continue a
number: what it starts with tells of which kind the value is, and the parts of an array or object
are followed by a comma or a new line. -/
theorem delimited_indented : (json : Json) → (level : ℕ) → Delimited (indented level) json
  | .null, level => by
      intro other r s hr hs h
      have hopener := opener_eq_of_append h
      cases other with
      | null => exact ⟨rfl, List.append_cancel_left h⟩
      | bool value => cases value <;> cases hopener
      | num | str | arr | obj => cases hopener
  | .bool value, level => by
      intro other r s hr hs h
      have hopener := opener_eq_of_append h
      cases other with
      | bool other =>
          have hvalue : value = other := by
            cases value <;> cases other <;> first | rfl | cases hopener
          subst hvalue
          exact ⟨rfl, List.append_cancel_left h⟩
      | null => cases value <;> cases hopener
      | str | arr | obj => cases value <;> cases hopener
      | num => cases hopener
  | .num value, level => by
      intro other r s hr hs h
      have hopener := opener_eq_of_append h
      cases other with
      | num other =>
          obtain ⟨hvalue, hrest⟩ := delimited_number value other r s hr hs h
          exact ⟨congrArg num hvalue, hrest⟩
      | null | bool | str | arr | obj => cases hopener
  | .str value, level => by
      intro other r s hr hs h
      have hopener := opener_eq_of_append h
      cases other with
      | str other =>
          obtain ⟨hvalue, hrest⟩ := quoted_append_inj h
          exact ⟨congrArg str hvalue, hrest⟩
      | bool value => cases value <;> cases hopener
      | null | num | arr | obj => cases hopener
  | .arr items, level => by
      intro other r s hr hs h
      have hopener := opener_eq_of_append h
      cases other with
      | arr others =>
          rw [indented, indented, indentedItems_eq_map, indentedItems_eq_map] at h
          obtain ⟨hitems, hrest⟩ :=
            block_append_inj (delimited_items items (level + 1)) (by simp) h
          exact ⟨congrArg arr hitems, hrest⟩
      | bool value => cases value <;> cases hopener
      | null | num | str | obj => cases hopener
  | .obj members, level => by
      intro other r s hr hs h
      have hopener := opener_eq_of_append h
      cases other with
      | obj others =>
          rw [indented, indented, indentedMembers_eq_map, indentedMembers_eq_map] at h
          obtain ⟨hmembers, hrest⟩ :=
            block_append_inj (delimited_members members (level + 1)) (by simp) h
          exact ⟨congrArg obj hmembers, hrest⟩
      | bool value => cases value <;> cases hopener
      | null | num | str | arr => cases hopener
termination_by structural json => json

theorem delimited_items : (items : List Json) → (level : ℕ) →
    ∀ item ∈ items, Delimited (indented level) item
  | [], _ => List.forall_mem_nil _
  | item :: items, level =>
    List.forall_mem_cons.mpr ⟨delimited_indented item level, delimited_items items level⟩
termination_by structural items => items

theorem delimited_members : (members : List (String × Json)) → (level : ℕ) →
    ∀ member ∈ members, Delimited (memberText level) member
  | [], _ => List.forall_mem_nil _
  | (key, value) :: members, level =>
    List.forall_mem_cons.mpr
      ⟨(delimited_indented value level).member key, delimited_members members level⟩
termination_by structural members => members

end

/-- Different values have different texts. -/
theorem eq_of_indented {a b : Json} {level : ℕ} (h : a.indented level = b.indented level) :
    a = b := by
  have hlist := congrArg (fun text : String => text.toList ++ []) h
  exact (delimited_indented a level b [] [] (by simp [Ends]) (by simp [Ends]) hlist).1

end Json

end EventSchema
