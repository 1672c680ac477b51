import NetworkPing.Wire.RequestRoundTrip

namespace NetworkPing.Request

open Scan

variable {r p rest : List Char}

lemma reads_fits {ip : Lexeme} {xs : List Lexeme} {data : List Char}
    (h : Reads format data (ip :: xs) rest) : ip.text.length < data.length := by
  obtain ⟨x, xs', cs, he, hx, h⟩ := reads_cons.mp h
  cases he
  obtain ⟨y, ys, cs', _, hy, _⟩ := reads_cons.mp h
  have hl := lex_length hx
  have hne : cs ≠ [] := by
    rintro rfl
    rw [lex_nil] at hy
    cases hy
  have := List.length_pos_iff.mpr hne
  omega

lemma accepted_reads {data : List Char} {x : TestParams} (h : loadFromStr data = .accepted x) :
    ∃ ip port numConn runtime tmin tmax len rest, ∃ hip : ip.text.length < sizeofIp,
      Reads format data [ip, port, numConn, runtime, tmin, tmax, len] rest ∧
      data.length ≤ sizeofIp ∧ ¬ strtoul tmin > strtoul tmax ∧
      x = ⟨toInt port, toInt numConn, toInt runtime, toInt len, strtoul tmin, strtoul tmax,
        ⟨ip.text, hip⟩⟩ := by
  rw [loadFromStr] at h
  split_ifs at h with hl
  split at h
  next => cases h
  next ip fields hs =>
    split_ifs at h with hip
    split at h
    next port numConn runtime tmin tmax len =>
      split_ifs at h with ht
      cases h
      exact ⟨ip, port, numConn, runtime, tmin, tmax, len, _, hip, ⟨Prod.ext hs rfl, rfl⟩,
        by omega, ht, rfl⟩
    next => cases h

/-- The beginning `p` of the request `r` still has seven fields, but is not `r` for the server:
the digits that are left of the seventh field are stored as another number, or `r` is too large. -/
def Misread (r p : List Char) : Prop :=
  ∃ ip port numConn runtime tmin tmax neg digits rest k,
    Reads format r [ip, port, numConn, runtime, tmin, tmax, ⟨neg, digits⟩] rest ∧
    ¬ strtoul tmin > strtoul tmax ∧ p.length ≤ sizeofIp ∧
    0 < k ∧ p.length + digits.length + rest.length = r.length + k ∧
    (sizeofIp < r.length ∨ toInt ⟨neg, digits.take k⟩ ≠ toInt ⟨neg, digits⟩)

def leadingFormat : List Conv := [.word, .number, .number, .number, .number, .number]

lemma reads_unique {xs ys : List Lexeme} {data rest' : List Char}
    (h : Reads format data xs rest) (h' : Reads format data ys rest') : xs = ys ∧ rest = rest' :=
  Prod.mk.inj (h.1.symm.trans h'.1)

lemma loadFromStr_cut (hp : p <+: r) :
    (∀ x, loadFromStr p = .accepted x → loadFromStr r = .accepted x) ↔ ¬ Misread r p := by
  constructor
  · rintro h ⟨ip, port, numConn, runtime, tmin, tmax, neg, digits, rest, k, hr, ht, hl, h0, hk, hne⟩
    have hr' : Reads (leadingFormat ++ [.number]) r
      ([ip, port, numConn, runtime, tmin, tmax] ++ [⟨neg, digits⟩]) rest := hr
    obtain ⟨rest', hcut⟩ := hr'.concat_cut hp hk h0
    have hip : ip.text.length < sizeofIp := lt_of_lt_of_le (reads_fits hcut) hl
    have hload := h _ ((loadFromStr_reads hl hip hcut).trans (if_neg ht))
    rcases hne with hlong | hne
    · rw [loadFromStr, if_pos hlong] at hload
      cases hload
    · have hlr : r.length ≤ sizeofIp := by
        by_contra hlong
        rw [loadFromStr, if_pos (by omega)] at hload
        cases hload
      rw [loadFromStr_reads hlr hip hr, if_neg ht, Loaded.accepted.injEq,
        TestParams.mk.injEq] at hload
      exact hne hload.2.2.2.1.symm
  · intro h x hx
    obtain ⟨ip, port, numConn, runtime, tmin, tmax, ⟨neg, u⟩, rest', hip, hread, hl, ht, rfl⟩ :=
      accepted_reads hx
    have hread' : Reads (leadingFormat ++ [.number]) p
      ([ip, port, numConn, runtime, tmin, tmax] ++ [⟨neg, u⟩]) rest' := hread
    obtain ⟨v, rest, hr, hlen⟩ := hread'.concat_extend hp
    obtain ⟨k, hk⟩ : ∃ k, p.length + (u ++ v).length + rest.length = r.length + k :=
      ⟨p.length + (u ++ v).length + rest.length - r.length, by omega⟩
    obtain ⟨rest'', hcut⟩ := hr.concat_cut hp hk (by omega)
    have hu : u = (u ++ v).take k := by simpa using (reads_unique hread' hcut).1
    by_contra hne
    refine h ⟨ip, port, numConn, runtime, tmin, tmax, neg, u ++ v, rest, k, hr, ht, hl, by omega,
      hk, ?_⟩
    by_contra hc
    rw [not_or, not_not, ← hu] at hc
    rw [loadFromStr_reads (by omega) hip hr, if_neg ht, hc.2] at hne
    exact hne rfl

lemma cstr_cut (hp : p <+: r) : cstr p <+: cstr r := by
  obtain ⟨t, rfl⟩ := hp
  rw [cstr, cstr, List.takeWhile_append]
  split_ifs with h
  · rw [(List.takeWhile_prefix _).eq_of_length h]
    exact List.prefix_append p _
  · exact List.prefix_refl _

lemma toInt_take_ne (x : Int32) {k : ℕ} (h0 : 0 < k) (hk : k < (decimal x.toInt.natAbs).length) :
    toInt ⟨x.toInt < 0, (decimal x.toInt.natAbs).take k⟩ ≠ toInt (num x.toInt) := by
  have hlt := ofDecimal_take_lt h0 hk
  have hl := x.le_toInt
  have hu := x.toInt_lt
  set u := ofDecimal ((decimal x.toInt.natAbs).take k) with hdef
  intro he
  rw [toInt_num] at he
  have hx := congrArg Int32.toInt he
  simp only [toInt, strtol, decide_eq_true_eq, ← hdef] at hx
  rw [Int32.toInt_ofInt_of_le (by split_ifs <;> omega) (by split_ifs <;> omega)] at hx
  split_ifs at hx <;> omega

theorem cut_message_len (ip : List Char) (port count runtime msize : Int32) (tmin tmax : UInt64)
    (hip : IsAddress ip) (ht : tmin ≤ tmax) (p : List Char) :
    let params : ClientParams := ⟨(ip, port.toInt), count.toInt, msize.toInt, runtime.toInt,
      (tmin.toNat, tmax.toNat)⟩
    (requestText params).length ≤ maxClientMessage → p <+: requestText params →
      ((∀ x, loadFromStr p = .accepted x → loadFromStr (requestText params) = .accepted x) ↔
        p.length + (decimal msize.toInt.natAbs).length ≤ (requestText params).length ∨
          p = requestText params) := by
  intro params hlen hp
  have hread : Reads format (requestText params) _ [] := sscanf_requestText hip
  have hle := hp.length_le
  rw [loadFromStr_cut hp, ← not_iff_not, not_not, not_or]
  constructor
  · rintro ⟨_, _, _, _, _, _, neg, digits, rest, k, hr, -, -, h0, hk, hne⟩
    obtain ⟨hxs, rfl⟩ := reads_unique hread hr
    obtain ⟨rfl, rfl⟩ : decide (msize.toInt < 0) = neg ∧ decimal msize.toInt.natAbs = digits := by
      simp only [List.cons.injEq, num, Lexeme.mk.injEq] at hxs
      exact hxs.2.2.2.2.2.2.1
    rw [List.length_nil] at hk
    refine ⟨by omega, ?_⟩
    rintro rfl
    rcases hne with hlong | hne
    · have : sizeofIp = maxClientMessage + 1 := rfl
      omega
    · rw [List.take_of_length_le (by omega)] at hne
      exact hne rfl
  · rintro ⟨hd, hne⟩
    have hlt : p.length < (requestText params).length :=
      lt_of_le_of_ne hle fun he => hne (hp.eq_of_length he)
    have hfit : p.length ≤ sizeofIp := hle.trans (Nat.le_succ_of_le hlen)
    obtain ⟨k, hk⟩ : ∃ k, p.length + (decimal msize.toInt.natAbs).length =
        (requestText params).length + k := ⟨_, (Nat.add_sub_of_le (by omega)).symm⟩
    have hmt : ¬ strtoul (num tmin.toNat) > strtoul (num tmax.toNat) := by
      rw [strtoul_num, strtoul_num]
      exact UInt64.not_lt.mpr ht
    exact ⟨_, _, _, _, _, _, _, _, [], k, hread, hmt, hfit, by omega, hk,
      .inr (toInt_take_ne msize (by omega) (by omega))⟩

theorem cut_request (r p : List Char) (hp : p <+: r) :
    (∀ x, loadFromStr (cstr p) = .accepted x → loadFromStr (cstr r) = .accepted x) ↔
      ¬ Misread (cstr r) (cstr p) :=
  loadFromStr_cut (cstr_cut hp)

theorem cut_request_misread :
    Misread (cstr (requestText ⟨(['1', '.', '2'], 33332), 5, 12, 30, (0, 0)⟩))
      (cstr (requestText ⟨(['1', '.', '2'], 33332), 5, 12, 30, (0, 0)⟩).dropLast) := by
  by_contra hn
  have h := (cut_request _ _ (List.dropLast_prefix _)).mpr hn
    ⟨33332, 5, 30, 1, 0, 0, ⟨['1', '.', '2'], by decide⟩⟩ (by decide +kernel)
  exact absurd h (by decide +kernel)

theorem cut_request_twelve :
    let params : ClientParams := ⟨(['1', '.', '2'], 33332), 5, 12, 30, (0, 0)⟩
    ∃ r hip, readyFunc params = some r ∧
      loadFromStr (cstr r.dropLast) = .accepted ⟨33332, 5, 30, 1, 0, 0, ⟨['1', '.', '2'], hip⟩⟩ ∧
      loadFromStr (cstr r) = .accepted ⟨33332, 5, 30, 12, 0, 0, ⟨['1', '.', '2'], hip⟩⟩ := by
  intro params
  exact ⟨requestText params, by decide, by decide +kernel, by decide +kernel, by decide +kernel⟩

end NetworkPing.Request
