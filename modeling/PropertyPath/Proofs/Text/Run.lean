import PropertyPath.Text.WhiteSpace

/-!
# Runs of characters

A run of one class of characters ends where the class ends: splitting it off a text that goes on
with another character, or not at all, gives back exactly the run. Names, digits, keys and the
white space around a text are all such runs.
-/

namespace PropertyPath.Text

section Runs

variable {p : Char → Bool} {run rest : List Char}

theorem takeWhile_run (inside : ∀ c ∈ run, p c = true) (boundary : ∀ c ∈ rest.head?, p c = false) :
    (run ++ rest).takeWhile p = run := by
  rw [List.takeWhile_append_of_pos inside]
  cases rest with
  | nil => rw [List.takeWhile_nil, List.append_nil]
  | cons c rest =>
    rw [List.takeWhile_cons_of_neg (by simpa using boundary c rfl), List.append_nil]

theorem dropWhile_run (inside : ∀ c ∈ run, p c = true) (boundary : ∀ c ∈ rest.head?, p c = false) :
    (run ++ rest).dropWhile p = rest := by
  rw [List.dropWhile_append_of_pos inside]
  cases rest with
  | nil => rfl
  | cons c rest => exact List.dropWhile_cons_of_neg (by simpa using boundary c rfl)

/-- The longest run at the front of a text is followed by another character, or by nothing. -/
theorem boundary_dropWhile (p : Char → Bool) (text : List Char) :
    ∀ c ∈ (text.dropWhile p).head?, p c = false := by
  intro c hc
  have stops := List.head?_dropWhile_not p text
  rwa [Option.mem_def.mp hc] at stops

end Runs

/-! ## Trimming -/

section Trim

variable {before text after : List Char}

/-- Trimming takes away exactly the white space around a text that neither starts nor ends with
any. -/
theorem trim_append_append (hbefore : ∀ c ∈ before, isWhiteSpace c = true)
    (hafter : ∀ c ∈ after, isWhiteSpace c = true) (ne : text ≠ [])
    (first : ∀ c ∈ text.head?, isWhiteSpace c = false)
    (last : ∀ c ∈ text.getLast?, isWhiteSpace c = false) :
    trim (before ++ text ++ after) = text := by
  have start : trimStart (before ++ text ++ after) = text ++ after := by
    rw [trimStart, List.append_assoc]
    refine dropWhile_run hbefore ?_
    -- the text is not blank, so the white space behind it is not reached from the front
    obtain ⟨c, rest, rfl⟩ := List.exists_cons_of_ne_nil ne
    exact first
  have reverse : (text ++ after).reverse = after.reverse ++ text.reverse := List.reverse_append
  have stop : ∀ c ∈ text.reverse.head?, isWhiteSpace c = false := by rwa [List.head?_reverse]
  rw [trim, start, trimEnd, reverse,
    dropWhile_run (fun c hc ↦ hafter c (List.mem_reverse.mp hc)) stop, List.reverse_reverse]

/-- The white space in front of a text is counted up to the text. -/
theorem indent_append_append (hbefore : ∀ c ∈ before, isWhiteSpace c = true) (ne : text ≠ [])
    (first : ∀ c ∈ text.head?, isWhiteSpace c = false) (after : List Char) :
    indent (before ++ text ++ after) = before.length := by
  rw [indent, List.append_assoc, takeWhile_run hbefore]
  obtain ⟨c, rest, rfl⟩ := List.exists_cons_of_ne_nil ne
  exact first

theorem trim_of_blank (h : ∀ c ∈ text, isWhiteSpace c = true) : trim text = [] := by
  have start : (text ++ []).dropWhile isWhiteSpace = [] := dropWhile_run h (by simp)
  rw [List.append_nil] at start
  rw [trim, trimStart, start]
  rfl

/-- Whether a text neither begins nor ends with white space. -/
def IsTrimmed (text : List Char) : Prop :=
  (∀ c ∈ text.head?, isWhiteSpace c = false) ∧ ∀ c ∈ text.getLast?, isWhiteSpace c = false

instance : DecidablePred IsTrimmed := fun text ↦
  letI := @Option.decidableForallMem Char (fun c ↦ isWhiteSpace c = false) _
  inferInstanceAs (Decidable
    ((∀ c ∈ text.head?, isWhiteSpace c = false) ∧ ∀ c ∈ text.getLast?, isWhiteSpace c = false))

theorem trim_eq_self (ne : text ≠ []) (first : ∀ c ∈ text.head?, isWhiteSpace c = false)
    (last : ∀ c ∈ text.getLast?, isWhiteSpace c = false) : trim text = text := by
  have h : trim ([] ++ text ++ []) = text :=
    trim_append_append (by simp) (by simp) ne first last
  rwa [List.nil_append, List.append_nil] at h

theorem trim_of_isTrimmed (h : IsTrimmed text) : trim text = text := by
  by_cases nil : text = []
  · rw [nil]
    rfl
  · exact trim_eq_self nil h.1 h.2

end Trim

end PropertyPath.Text
