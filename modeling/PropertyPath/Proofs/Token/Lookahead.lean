import PropertyPath.Proofs.Grammar.Beginning
import PropertyPath.Proofs.Token.Order
import PropertyPath.Proofs.Token.Tiling

/-!
# A scan depends on what it reads

A scan that meets a misfit has looked at the text up to where the misfit stops, and at one character
more. All texts that share this beginning scan the same, whatever follows.

The invariant is about the shared beginning: it is longer than everything read so far. So every
lexeme is a proper front of what is shared, the character behind it included, and one character is
all that a reading looks ahead (`read_token_of_head?_eq`, `read_misfit_of_head?_eq`). A key without
an end is the one misfit that needs to see the end of the text, and it stops there.
-/

namespace PropertyPath

open Grammar

section Scans

variable {expecting : Expecting} {text shared more lexeme rest : List Char} {position : Nat}
  {front : List Token} {last : Token} {fault : Misfit} {reported : Nat}

theorem le_stop_of_scan (h : scan expecting text position = front ++ [last]) :
    position ≤ last.stop := by
  obtain ⟨front', last', eq, tiling⟩ := exists_isTiling_scan expecting text position
  have mem : last ∈ front' ++ [last'] := by
    rw [← eq, h]
    exact List.mem_concat_self
  obtain ⟨begins, order, -⟩ := tiling.within last mem
  exact begins.trans order

theorem exists_eq_append_of_length_lt (eq : lexeme ++ rest = shared ++ more)
    (shorter : lexeme.length < shared.length) :
    ∃ ahead, ahead ≠ [] ∧ shared = lexeme ++ ahead ∧ rest = ahead ++ more := by
  have front : lexeme <+: shared := by
    refine List.prefix_of_prefix_length_le ⟨rest, eq⟩ (List.prefix_append shared more) ?_
    exact Nat.le_of_lt shorter
  obtain ⟨ahead, rfl⟩ := front
  refine ⟨ahead, ?_, rfl, ?_⟩
  · rintro rfl
    rw [List.append_nil] at shorter
    exact absurd shorter (Nat.lt_irrefl _)
  · rw [List.append_assoc] at eq
    exact List.append_cancel_left eq

theorem head?_append_eq {ahead : List Char} (ne : ahead ≠ []) (more more' : List Char) :
    (ahead ++ more).head? = (ahead ++ more').head? := by
  rw [List.head?_append_of_ne_nil _ ne, List.head?_append_of_ne_nil _ ne]

/-- **A scan depends on what it reads.** If the misfit at the end of a scan stops within a shared
beginning, the scan is the same whatever follows that beginning. -/
theorem scan_append_of_stop_lt (h : scan expecting (shared ++ more) position = front ++ [last])
    (misfit : last.kind = .misfit fault reported) (within : last.stop < position + shared.length)
    (more' : List Char) :
    scan expecting (shared ++ more') position = front ++ [last] := by
  generalize eq : shared ++ more = text at h
  fun_induction scan expecting text position generalizing shared front with
  | case1 expecting text position kind lexeme rest next hread ih =>
    -- the scan goes on behind this token, so the misfit is further on
    rcases List.cons_eq_append_iff.mp h with ⟨rfl, one⟩ | ⟨tokens, rfl, onward⟩
    · exact absurd (List.cons.inj one).2.symm (scan_ne_nil _ _ _)
    have behind : position + lexeme.length ≤ last.stop := le_stop_of_scan onward
    obtain ⟨ahead, ne, rfl, rfl⟩ :=
      exists_eq_append_of_length_lt ((lexeme_append_rest hread).trans eq.symm) (by omega)
    rw [List.length_append, ← Nat.add_assoc] at within
    have reads := read_token_of_head?_eq hread (head?_append_eq ne more more')
    rw [List.append_assoc, scan_of_token position reads, ih within rfl onward]
    rfl
  | case2 expecting text position hread =>
    obtain ⟨-, rfl⟩ := eq_nil_and_eq_of_singleton_eq_append h
    cases misfit
  | case3 expecting text position found held column hread =>
    obtain ⟨rfl, rfl⟩ := eq_nil_and_eq_of_singleton_eq_append h
    obtain ⟨rest, rfl⟩ := consumed_prefix hread
    obtain ⟨ahead, ne, rfl, rfl⟩ :=
      exists_eq_append_of_length_lt eq.symm (Nat.lt_of_add_lt_add_left within)
    have reads := read_misfit_of_head?_eq hread (head?_append_eq ne more more')
    rw [List.append_assoc, scan_of_misfit position reads]
    rfl

/-- What is expected at the start is shared too, since the scan reads at least one character. -/
theorem tokensOf_append_of_stop_lt (h : tokensOf (shared ++ more) position = front ++ [last])
    (misfit : last.kind = .misfit fault reported) (within : last.stop < position + shared.length)
    (more' : List Char) :
    tokensOf (shared ++ more') position = tokensOf (shared ++ more) position := by
  have begins : position ≤ last.stop := le_stop_of_scan h
  have ne : shared ≠ [] := List.ne_nil_of_length_pos (by omega)
  rw [h, tokensOf, atStart_append ne]
  rw [tokensOf, atStart_append ne] at h
  exact scan_append_of_stop_lt h misfit within more'

end Scans

/-- **The scanner never depends on text that it has not read.** If the misfit at the end of a scan
stops in front of the end of the text, then every text with the same characters up to there, and one
more, has the same tokens. -/
theorem tokensOf_eq_of_take_eq {text text' : String} {offset : Nat} {front : List Token}
    {last : Token} {fault : Misfit} {reported : Nat}
    (h : tokensOf text.toList offset = front ++ [last])
    (misfit : last.kind = .misfit fault reported) (within : last.stop < offset + text.length)
    (shares : text'.toList.take (last.stop - offset + 1)
      = text.toList.take (last.stop - offset + 1)) :
    tokensOf text'.toList offset = tokensOf text.toList offset := by
  have begins : offset ≤ last.stop := le_stop_of_scan h
  have covers : last.stop < offset + (text.toList.take (last.stop - offset + 1)).length := by
    rw [List.length_take, String.length_toList]
    omega
  rw [← List.take_append_drop (last.stop - offset + 1) text.toList] at h
  have same := tokensOf_append_of_stop_lt h misfit covers
    (text'.toList.drop (last.stop - offset + 1))
  rwa [← shares, List.take_append_drop, shares, List.take_append_drop] at same

/-- The bracket behind an integer out of range is looked at, and what follows it is not. With a
digit in place of the bracket the misfit would stop one character later. -/
theorem tokensOf_outOfRange_shared :
    tokensOf "b[9223372036854775808](.)".toList 2 = tokensOf "b[9223372036854775808]".toList 2 ∧
    tokensOf "b[92233720368547758080".toList 2 ≠ tokensOf "b[9223372036854775808]".toList 2 := by
  have tokens : tokensOf "b[9223372036854775808]".toList 2
      = [⟨.name "b", 2, 3⟩, ⟨.openBracket, 3, 4⟩] ++ [⟨.misfit .integerOutOfRange 4, 4, 23⟩] := by
    decide +kernel
  refine ⟨tokensOf_eq_of_take_eq tokens rfl (by decide) (by decide), ?_⟩
  rw [tokens]
  decide +kernel

end PropertyPath
