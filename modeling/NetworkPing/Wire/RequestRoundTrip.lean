import Mathlib.Data.List.TakeWhile
import NetworkPing.Wire.Request

namespace NetworkPing.Request

open Scan

variable {ip rest : List Char} {params : ClientParams}

def Plain (c : Char) : Prop := c.toNat < 128 ∧ c ≠ '\x00'

structure IsAddress (ip : List Char) : Prop where
  ne_nil : ip ≠ []
  plain : ∀ c ∈ ip, Plain c
  solid : ∀ c ∈ ip, isSpace c = false

lemma plain_digit {c : Char} (hc : c.isDigit) : Plain c := by
  simp only [Char.isDigit, Bool.and_eq_true, decide_eq_true_eq] at hc
  refine ⟨?_, ne_of_isDigit (by simpa [Char.isDigit] using hc) rfl⟩
  have : c.val.toNat ≤ 57 := hc.2
  exact lt_of_le_of_lt this (by decide)

lemma plain_signed (n : ℤ) : ∀ c ∈ signed n, Plain c := by
  rw [signed]
  split_ifs
  · simp only [List.forall_mem_cons]
    exact ⟨⟨by decide, by decide⟩, fun c hc => plain_digit (isDigit_decimal hc)⟩
  · exact fun c hc => plain_digit (isDigit_decimal hc)

lemma plain_requestText (h : IsAddress params.localAddr.1) : ∀ c ∈ requestText params, Plain c := by
  have hb : Plain ' ' := ⟨by decide, by decide⟩
  simp only [requestText, List.forall_mem_append, List.forall_mem_cons]
  exact ⟨h.plain, hb, plain_signed _, hb, plain_signed _, hb, plain_signed _, hb, plain_signed _,
    hb, plain_signed _, hb, plain_signed _⟩

lemma cstr_plain {cs : List Char} (h : ∀ c ∈ cs, Plain c) : cstr cs = cs :=
  List.takeWhile_eq_self_iff.mpr fun c hc => by simpa using (h c hc).2

def num (n : ℤ) : Lexeme := ⟨n < 0, decimal n.natAbs⟩

lemma lex_num (n : ℤ) (hr : rest.takeWhile Conv.number.keeps = []) :
    lex .number (' ' :: (signed n ++ rest)) = some (num n, rest) := by
  refine lex_eq_some.mpr ⟨' ' :: if n < 0 then ['-'] else [], ?_, ?_, decimal_ne_nil _,
    fun c hc => isDigit_decimal hc, hr⟩
  · refine ⟨[' '], if n < 0 then ['-'] else [], rfl, List.forall_mem_singleton.mpr rfl, ?_⟩
    by_cases hn : n < 0
    · exact .inr ⟨rfl, .inl (by simp [hn])⟩
    · exact .inl (by simp [hn])
  · rw [signed]
    split_ifs <;> simp

lemma lex_ip (h : IsAddress ip) :
    lex .word (ip ++ ' ' :: rest) = some (⟨false, ip⟩, ' ' :: rest) := by
  refine lex_eq_some.mpr ⟨[], ⟨[], [], rfl, by simp, .inl ⟨rfl, rfl⟩⟩, rfl, h.ne_nil,
    fun c hc => ?_, rfl⟩
  simp [Conv.keeps, h.solid c hc]

lemma sscanf_requestText (h : IsAddress params.localAddr.1) :
    Reads format (requestText params) [⟨false, params.localAddr.1⟩, num params.localAddr.2,
      num params.count, num params.runtime, num params.timeout.1, num params.timeout.2,
      num params.msize] [] := by
  refine reads_cons.mpr ⟨_, _, _, rfl, lex_ip h, ?_⟩
  refine reads_cons.mpr ⟨_, _, _, rfl, lex_num _ rfl, ?_⟩
  refine reads_cons.mpr ⟨_, _, _, rfl, lex_num _ rfl, ?_⟩
  refine reads_cons.mpr ⟨_, _, _, rfl, lex_num _ rfl, ?_⟩
  refine reads_cons.mpr ⟨_, _, _, rfl, lex_num _ rfl, ?_⟩
  refine reads_cons.mpr ⟨_, _, _, rfl, lex_num _ rfl, ?_⟩
  refine reads_cons.mpr ⟨_, [], [], rfl, ?_, reads_nil.mpr ⟨rfl, rfl⟩⟩
  have := @lex_num [] params.msize rfl
  rwa [List.append_nil] at this

lemma strtol_num {n : ℤ} (hl : -2 ^ 63 ≤ n) (hu : n < 2 ^ 63) : strtol (num n) = n := by
  simp only [strtol, num, ofDecimal_decimal, decide_eq_true_eq]
  split_ifs <;> omega

lemma toInt_num (x : Int32) : toInt (num x.toInt) = x := by
  have hl := x.le_toInt
  have hu := x.toInt_lt
  rw [toInt, strtol_num (by omega) (by omega), Int32.ofInt_toInt]

lemma strtoul_num (t : UInt64) : strtoul (num t.toNat) = t := by
  have ht := t.toNat_lt
  have hn : ¬ (t.toNat : ℤ) < 0 := by omega
  simp only [strtoul, num, ofDecimal_decimal, Int.natAbs_natCast, decide_eq_true_eq]
  rw [if_pos ht, if_neg hn, UInt64.ofNat_toNat]

lemma fill_set (buff : Vector Char sizeofBuff) (bytes : {b : List Char // b.length ≤ sizeofBuff})
    (h : bytes.1.length < sizeofBuff) : ∃ garbage,
      ((fill buff bytes).set bytes.1.length '\x00' h).toList = bytes.1 ++ '\x00' :: garbage := by
  refine ⟨(buff.toList.drop bytes.1.length).tail, ?_⟩
  have hne : buff.toList.drop bytes.1.length ≠ [] := by
    rw [Ne, List.drop_eq_nil_iff, Vector.length_toList]
    omega
  obtain ⟨c, cs, hc⟩ := List.exists_cons_of_ne_nil hne
  simp [fill, hc]

lemma cstr_append (bytes garbage : List Char) :
    cstr (bytes ++ '\x00' :: garbage) = cstr bytes := by
  rw [cstr, List.takeWhile_append]
  split_ifs with h
  · rw [List.takeWhile_cons_of_neg (by simp), List.append_nil]
    exact ((List.takeWhile_prefix _).eq_of_length h).symm
  · rfl

lemma processClient_cases (buff : Vector Char sizeofBuff) (recvs : ℕ → Recv) :
    processClient buff recvs = .gaveUp ∨ processClient buff recvs = .tooLarge ∨
      ∃ bytes : List Char, bytes.length < sizeofBuff ∧
        processClient buff recvs = .loaded (loadFromStr (cstr bytes)) := by
  rw [processClient]
  split
  · exact .inl rfl
  next bytes _ =>
    split_ifs with he hl
    · exact .inr (.inl rfl)
    · obtain ⟨garbage, hg⟩ := fill_set buff bytes hl
      exact .inr (.inr ⟨bytes.1, hl, by rw [hg, cstr_append]⟩)
    · exact (hl (lt_of_le_of_ne bytes.2 he)).elim

lemma loadFromStr_fits {data : List Char} (h : data.length < sizeofIp) :
    loadFromStr data ≠ .overrun := by
  rw [loadFromStr, if_neg (by omega)]
  cases hx : lex .word data with
  | none => simp [format, sscanf, hx]
  | some r =>
    obtain ⟨⟨neg, text⟩, rest⟩ := r
    have hl := lex_length hx
    have hfit : text.length < sizeofIp := by omega
    simp only [format, sscanf, hx, hfit, dif_pos]
    split
    · split_ifs <;> simp
    · simp

lemma requestText_length (h : (requestText params).length ≤ maxClientMessage) :
    params.localAddr.1.length < maxClientMessage + 1 := by
  rw [requestText, List.length_append] at h
  omega

lemma loadFromStr_reads {data : List Char} {ip port numConn runtime tmin tmax len : Lexeme}
    (hl : data.length ≤ sizeofIp) (hip : ip.text.length < sizeofIp)
    (h : Reads format data [ip, port, numConn, runtime, tmin, tmax, len] rest) :
    loadFromStr data = if strtoul tmin > strtoul tmax then .rejected else
      .accepted ⟨toInt port, toInt numConn, toInt runtime, toInt len, strtoul tmin, strtoul tmax,
        ⟨ip.text, hip⟩⟩ := by
  simp only [loadFromStr, h.1, hip, dif_pos]
  rw [if_neg (by omega)]

theorem request_survives :
    (∀ (ip : List Char) (port count runtime msize : Int32) (tmin tmax : UInt64),
      IsAddress ip → tmin ≤ tmax →
      let params : ClientParams := ⟨(ip, port.toInt), count.toInt, msize.toInt, runtime.toInt,
        (tmin.toNat, tmax.toNat)⟩
      (requestText params).length ≤ maxClientMessage →
      ∃ text hip, readyFunc params = some text ∧ loadFromStr (cstr text) =
        .accepted ⟨port, count, runtime, msize, tmin, tmax, ⟨ip, hip⟩⟩) ∧
    ∀ (buff : Vector Char sizeofBuff) (recvs : ℕ → Recv),
      processClient buff recvs ≠ .overrun ∧ processClient buff recvs ≠ .loaded .overrun := by
  constructor
  · intro ip port count runtime msize tmin tmax hip ht params hlen
    have hplain : ∀ c ∈ requestText params, Plain c := plain_requestText hip
    refine ⟨requestText params, requestText_length hlen, ?_, ?_⟩
    · exact if_pos (List.all_eq_true.mpr fun c hc => decide_eq_true (hplain c hc).1)
    · rw [cstr_plain hplain, loadFromStr_reads (Nat.le_succ_of_le hlen) (requestText_length hlen)
        (sscanf_requestText hip)]
      simp only [params, toInt_num, strtoul_num]
      exact if_neg (UInt64.not_lt.mpr ht)
  · intro buff recvs
    rcases processClient_cases buff recvs with he | he | ⟨bytes, hb, he⟩
    · simp [he]
    · simp [he]
    · have hl : (cstr bytes).length < sizeofIp :=
        lt_of_le_of_lt (List.takeWhile_prefix _).length_le hb
      simp [he, loadFromStr_fits hl]

theorem request_survives_one :
    ∃ text hip, readyFunc ⟨(['1', '.', '2'], 33332), 5, 64, 30, (0, 7)⟩ = some text ∧
      loadFromStr (cstr text) = .accepted ⟨33332, 5, 30, 64, 0, 7, ⟨['1', '.', '2'], hip⟩⟩ :=
  request_survives.1 ['1', '.', '2'] 33332 5 30 64 0 7
    ⟨by decide, by simp [Plain], by simp [isSpace]⟩ (by decide) (by decide)

end NetworkPing.Request
