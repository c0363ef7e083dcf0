import PerpExchange.Proofs.Json.Library
import PerpExchange.Proofs.Json.Literal

/-!
The text of a value, read again.

Codecs write integers of at most 128 bits, texts, lists and objects, a few of these inside each
other. What is written in this way is read again as it was: each reader takes the characters of its
value, gives the value back, and stops where the text of the value ends.
-/

namespace PerpExchange.Json

variable {levels fuel depth : ℕ} {v : Json} {rest : List Char} {items : List Json}
  {members : List (String × Json)}

/-! ### Where a value begins -/

lemma skipBlanks_cons {c : Char} (hc : isBlank c = false) (tail : List Char) :
    skipBlanks (c :: tail) = c :: tail := by
  simp [skipBlanks, hc]

lemma isBlank_of_number {c : Char} (hc : c.isDigit ∨ c = '-') : isBlank c = false := by
  have hne : c ≠ ' ' ∧ c ≠ '\t' ∧ c ≠ '\n' ∧ c ≠ '\r' := by
    refine ⟨?_, ?_, ?_, ?_⟩ <;> rintro rfl <;> exact absurd hc (by decide)
  simp [isBlank, hne]

lemma integerChars_head (negative : Bool) (n : ℕ) :
    ∃ c tail, integerChars negative n = c :: tail ∧ (c.isDigit ∨ c = '-') := by
  cases negative with
  | true => exact ⟨'-', _, rfl, .inr rfl⟩
  | false =>
    obtain ⟨d, ds, hds⟩ := List.exists_cons_of_ne_nil (Nat.toDigits_ne_nil (n := n) (b := 10))
    exact ⟨d, ds, hds, .inl (isDigit_of_mem_toDigits (n := n) (by simp [hds]))⟩

lemma render_integer (negative : Bool) (n : ℕ) :
    (Json.integer negative n).render = integerChars negative n := by
  simp [render, integerChars]

/-- A value begins with a character that is neither a blank nor a closing bracket. -/
lemma Written.render_head (h : Written levels v) :
    ∃ c tail, v.render = c :: tail ∧ isBlank c = false ∧ c ≠ ']' := by
  cases h with
  | null => exact ⟨'n', _, rfl, by decide, by decide⟩
  | bool b =>
    cases b with
    | true => exact ⟨'t', _, rfl, by decide, by decide⟩
    | false => exact ⟨'f', _, rfl, by decide, by decide⟩
  | integer negative h =>
    obtain ⟨c, tail, hchars, hc⟩ := integerChars_head negative _
    refine ⟨c, tail, (render_integer _ _).trans hchars, isBlank_of_number hc, ?_⟩
    rintro rfl
    exact absurd hc (by decide)
  | text s => exact ⟨'"', _, rfl, by decide, by decide⟩
  | array h => exact ⟨'[', _, rfl, by decide, by decide⟩
  | object h => exact ⟨'\x7b', _, rfl, by decide, by decide⟩

/-! ### Lists and members -/

/-- What a reader of values is known to do with one value. -/
def Reads (depth : ℕ) (v : Json) : Prop :=
  ∀ fuel rest, 2 * v.render.length ≤ fuel → Follows rest →
    value? fuel depth (v.render ++ rest) = some (v, rest)

lemma renderItems_cons_cons (item next : Json) (others : List Json) :
    renderItems (item :: next :: others) =
      item.render ++ ',' :: renderItems (next :: others) := by
  rw [renderItems]
  exact nofun

/-- Every value takes a character, so there is a step left to read it with. -/
lemma reads_of_step (hne : v.render ≠ [])
    (hstep : ∀ fuel rest, 2 * v.render.length ≤ fuel + 1 → Follows rest →
      value? (fuel + 1) depth (v.render ++ rest) = some (v, rest)) : Reads depth v := by
  intro fuel rest hfuel hrest
  have hpos : 0 < v.render.length := List.length_pos_iff.mpr hne
  obtain ⟨fuel, rfl⟩ := Nat.exists_eq_add_of_le' (show 1 ≤ fuel by omega)
  exact hstep fuel rest hfuel hrest

lemma items?_renderItems (hne : items ≠ []) (hreads : ∀ item ∈ items, Reads depth item)
    (hfuel : 2 * (renderItems items).length + 1 ≤ fuel) :
    items? fuel depth (renderItems items ++ ']' :: rest) = some (items, rest) := by
  induction items generalizing fuel with
  | nil => exact absurd rfl hne
  | cons item others ih =>
    obtain ⟨hitem, hothers⟩ := List.forall_mem_cons.mp hreads
    obtain ⟨fuel, rfl⟩ := Nat.exists_eq_add_of_le' (Nat.one_le_of_lt hfuel)
    cases others with
    | nil =>
      have hitem := hitem fuel (']' :: rest) (by simpa [renderItems] using hfuel) (by simp [Follows])
      rw [renderItems, items?, hitem]
      rfl
    | cons next others =>
      rw [renderItems_cons_cons, List.length_append, List.length_cons] at hfuel
      have hitem := hitem fuel (',' :: (renderItems (next :: others) ++ ']' :: rest)) (by omega)
        (by simp [Follows])
      have htail := @ih fuel nofun hothers (by omega)
      rw [renderItems_cons_cons, List.append_assoc, List.cons_append, items?, hitem]
      simp only [skipBlanks_cons (show isBlank ',' = false from rfl), htail]

lemma key?_quoted (key : String) : key? (quoted key ++ ':' :: rest) = some (some key, rest) := by
  have hquoted : quoted key ++ ':' :: rest =
      '"' :: (key.toList.flatMap escape ++ '"' :: ':' :: rest) := by
    simp [quoted]
  rw [hquoted, key?, skipBlanks_cons rfl]
  simp [string?_escaped, skipBlanks_cons (show isBlank ':' = false from rfl)]

/-- The members of an object as they are read. -/
def keyed (members : List (String × Json)) : List (Option String × Json) :=
  members.map fun (key, value) => (some key, value)

lemma renderMembers_cons_cons (m next : String × Json) (others : List (String × Json)) :
    renderMembers (keyed (m :: next :: others)) =
      quoted m.1 ++ ':' :: (m.2.render ++ ',' :: renderMembers (keyed (next :: others))) := by
  rw [keyed, List.map_cons, renderMembers]
  · rfl
  · exact nofun

lemma members?_renderMembers (hne : members ≠ []) (hreads : ∀ m ∈ members, Reads depth m.2)
    (hfuel : 2 * (renderMembers (keyed members)).length + 1 ≤ fuel) :
    members? fuel depth (renderMembers (keyed members) ++ '\x7d' :: rest) =
      some (keyed members, rest) := by
  induction members generalizing fuel with
  | nil => exact absurd rfl hne
  | cons m others ih =>
    obtain ⟨hvalue, hothers⟩ := List.forall_mem_cons.mp hreads
    obtain ⟨fuel, rfl⟩ := Nat.exists_eq_add_of_le' (Nat.one_le_of_lt hfuel)
    cases others with
    | nil =>
      have hsplit : renderMembers (keyed [m]) = quoted m.1 ++ ':' :: m.2.render := rfl
      rw [hsplit, List.length_append, List.length_cons] at hfuel
      have hvalue := hvalue fuel ('\x7d' :: rest) (by omega) (by simp [Follows])
      rw [hsplit, List.append_assoc, List.cons_append, members?, key?_quoted]
      simp only [hvalue, skipBlanks_cons (show isBlank '\x7d' = false from rfl)]
      rfl
    | cons next others =>
      rw [renderMembers_cons_cons, List.length_append, List.length_cons, List.length_append,
        List.length_cons] at hfuel
      have hvalue := hvalue fuel (',' :: (renderMembers (keyed (next :: others)) ++ '\x7d' :: rest))
        (by omega) (by simp [Follows])
      have htail := @ih fuel nofun hothers (by omega)
      rw [renderMembers_cons_cons, List.append_assoc, List.cons_append, List.append_assoc,
        List.cons_append, members?, key?_quoted]
      simp only [hvalue, skipBlanks_cons (show isBlank ',' = false from rfl), htail]
      rfl

/-! ### Values -/

/-- A number is tried where no other value begins. -/
lemma value?_number {c : Char} {tail : List Char} (hc : c.isDigit ∨ c = '-') :
    value? (fuel + 1) depth (c :: tail) = number? (c :: tail) := by
  rw [value?, skipBlanks_cons (isBlank_of_number hc)]
  split
  case h_7 => rfl
  all_goals
    next heq =>
      cases heq
      exact absurd hc (by decide)

lemma value?_text (s : String) : value? (fuel + 1) depth (quoted s ++ rest) = some (.text s, rest) := by
  have hquoted : quoted s ++ rest = '"' :: (s.toList.flatMap escape ++ '"' :: rest) := by
    simp [quoted]
  rw [hquoted, value?, skipBlanks_cons rfl]
  simp [string?_escaped]

lemma renderItems_head (hne : items ≠ []) (hwritten : ∀ item ∈ items, Written levels item) :
    ∃ c tail, renderItems items = c :: tail ∧ isBlank c = false ∧ c ≠ ']' := by
  obtain ⟨item, others, rfl⟩ := List.exists_cons_of_ne_nil hne
  obtain ⟨c, tail, hc, hblank, hbracket⟩ := (hwritten item List.mem_cons_self).render_head
  cases others with
  | nil => exact ⟨c, tail, hc, hblank, hbracket⟩
  | cons next others => exact ⟨c, _, by rw [renderItems_cons_cons, hc]; rfl, hblank, hbracket⟩

lemma value?_array (hdepth : depth + 1 < depthLimit)
    (hhead : ∃ c tail, renderItems items = c :: tail ∧ isBlank c = false ∧ c ≠ ']')
    (hitems : items? fuel (depth + 1) (renderItems items ++ ']' :: rest) = some (items, rest)) :
    value? (fuel + 1) depth ('[' :: (renderItems items ++ ']' :: rest)) =
      some (.array items, rest) := by
  obtain ⟨c, tail, hc, hblank, hbracket⟩ := hhead
  rw [hc, List.cons_append] at hitems ⊢
  rw [value?, skipBlanks_cons rfl]
  simp only [skipBlanks_cons hblank]
  split
  · next heq =>
    cases heq
    exact absurd rfl hbracket
  · simp [hitems, contained, hdepth]

lemma renderMembers_head (hne : members ≠ []) :
    ∃ tail, renderMembers (keyed members) = '"' :: tail := by
  obtain ⟨m, others, rfl⟩ := List.exists_cons_of_ne_nil hne
  cases others with
  | nil => exact ⟨_, rfl⟩
  | cons next others => exact ⟨_, renderMembers_cons_cons m next others⟩

lemma value?_object (hne : members ≠ []) (hdepth : depth + 1 < depthLimit)
    (hmembers : members? fuel (depth + 1) (renderMembers (keyed members) ++ '\x7d' :: rest) =
      some (keyed members, rest)) :
    value? (fuel + 1) depth ('\x7b' :: (renderMembers (keyed members) ++ '\x7d' :: rest)) =
      some (.ofMembers members, rest) := by
  obtain ⟨tail, hhead⟩ := renderMembers_head hne
  rw [hhead, List.cons_append] at hmembers ⊢
  rw [value?, skipBlanks_cons rfl]
  simp only [skipBlanks_cons (show isBlank '"' = false from rfl)]
  simp [hmembers, contained, hdepth, ofMembers, keyed]

/-- The induction is on how a value is written. A container gives a level up to what is in it, so
that the depth of its items and their levels add up to no more. -/
lemma Written.reads (h : Written levels v) (hdepth : depth + levels < depthLimit) :
    Reads depth v := by
  induction h generalizing depth with
  | null => exact reads_of_step nofun fun fuel rest _ _ => rfl
  | bool b => cases b <;> exact reads_of_step nofun fun fuel rest _ _ => rfl
  | @integer _ negative magnitude h =>
    obtain ⟨c, tail, hchars, hc⟩ := integerChars_head negative magnitude
    rw [← render_integer] at hchars
    refine reads_of_step (by simp [hchars]) fun fuel rest _ hrest => ?_
    rw [← number?_append negative h hrest, ← render_integer, hchars, List.cons_append,
      value?_number hc]
  | text s => exact reads_of_step nofun fun fuel rest _ _ => value?_text s
  | @array levels items h ih =>
    refine reads_of_step nofun fun fuel rest hfuel _ => ?_
    have hshape : (Json.array items).render ++ rest = '[' :: (renderItems items ++ ']' :: rest) := by
      simp [render]
    -- the two brackets pay for the step into the list and for its end
    have hlength : (Json.array items).render.length = (renderItems items).length + 2 := by
      simp [render]
    rw [hshape]
    rcases eq_or_ne items [] with rfl | hne
    · have hkept : depth + 1 < depthLimit := by omega
      simp [value?, skipBlanks, isBlank, renderItems, contained, hkept]
    have hreads : ∀ item ∈ items, Reads (depth + 1) item := fun item hitem =>
      ih item hitem (by omega)
    exact value?_array (by omega) (renderItems_head hne h)
      (items?_renderItems hne hreads (by omega))
  | @object levels members h ih =>
    refine reads_of_step nofun fun fuel rest hfuel _ => ?_
    have hshape : (Json.ofMembers members).render ++ rest =
        '\x7b' :: (renderMembers (keyed members) ++ '\x7d' :: rest) := by
      simp [ofMembers, render, keyed]
    have hlength : (Json.ofMembers members).render.length =
        (renderMembers (keyed members)).length + 2 := by
      simp [ofMembers, render, keyed]
    rw [hshape]
    rcases eq_or_ne members [] with rfl | hne
    · have hkept : depth + 1 < depthLimit := by omega
      simp [value?, skipBlanks, isBlank, renderMembers, keyed, contained, hkept, ofMembers]
    have hreads : ∀ m ∈ members, Reads (depth + 1) m.2 := fun m hm => ih m hm (by omega)
    exact value?_object hne (by omega) (members?_renderMembers hne hreads (by omega))

/-- **A written value is read again**, if containers are not nested too deep. -/
theorem parse?_print (h : Written levels v) (hlevels : levels < depthLimit) :
    parse? v.print = some v := by
  have hreads : Reads 0 v := h.reads (by simpa using hlevels)
  have hvalue := hreads (2 * v.render.length + 2) [] (by omega) follows_nil
  simp only [List.append_nil] at hvalue
  simp [parse?, print, hvalue, skipBlanks]

end PerpExchange.Json
