import NetworkPing.Decimal

namespace NetworkPing.Scan

inductive Conv
  | word
  | number
  deriving DecidableEq

def Conv.keeps : Conv → Char → Bool
  | .word, c => !isSpace c
  | .number, c => c.isDigit

def Conv.sign : Conv → List Char → Bool × List Char
  | .word, cs => (false, cs)
  | .number, cs => NetworkPing.sign cs

structure Lexeme where
  neg : Bool
  text : List Char
  deriving DecidableEq

def lex (cv : Conv) (cs : List Char) : Option (Lexeme × List Char) :=
  let (neg, cs) := cv.sign (cs.dropWhile isSpace)
  let text := cs.takeWhile cv.keeps
  if text = [] then none else some (⟨neg, text⟩, cs.dropWhile cv.keeps)

def sscanf : List Conv → List Char → List Lexeme × List Char
  | [], cs => ([], cs)
  | cv :: cvs, cs =>
    match lex cv cs with
    | none => ([], cs)
    | some (x, cs) => (x :: (sscanf cvs cs).1, (sscanf cvs cs).2)

def Signs (cv : Conv) (neg : Bool) (sg : List Char) : Prop :=
  sg = [] ∧ neg = false ∨ cv = .number ∧ (sg = ['-'] ∧ neg = true ∨ sg = ['+'] ∧ neg = false)

def Leads (cv : Conv) (neg : Bool) (lead : List Char) : Prop :=
  ∃ sp sg, lead = sp ++ sg ∧ (∀ c ∈ sp, isSpace c) ∧ Signs cv neg sg

variable {cv : Conv} {cvs : List Conv} {cs lead text rest p r : List Char} {neg : Bool}

lemma keeps_not_space {c : Char} (h : cv.keeps c) : isSpace c = false := by
  cases cv with
  | word => simpa [Conv.keeps] using h
  | number => exact isSpace_digit h

lemma dropWhile_blank {sp : List Char} (hsp : ∀ c ∈ sp, isSpace c) {c : Char}
    (hc : isSpace c = false) : (sp ++ c :: cs).dropWhile isSpace = c :: cs := by
  rw [List.dropWhile_append_of_pos hsp, List.dropWhile_cons_of_neg (by simp [hc])]

lemma sign_keeps {c : Char} (hc : cv.keeps c) : cv.sign (c :: cs) = (false, c :: cs) := by
  cases cv with
  | word => rfl
  | number =>
    exact sign_numeral ⟨List.cons_ne_nil c [], by simpa [Conv.keeps] using hc⟩ cs

lemma sign_split (h : cv.sign cs = (neg, rest)) : ∃ sg, Signs cv neg sg ∧ cs = sg ++ rest := by
  cases cv with
  | word =>
    cases h
    exact ⟨[], .inl ⟨rfl, rfl⟩, rfl⟩
  | number =>
    simp only [Conv.sign, NetworkPing.sign] at h
    split at h <;> cases h
    · exact ⟨['-'], .inr ⟨rfl, .inl ⟨rfl, rfl⟩⟩, rfl⟩
    · exact ⟨['+'], .inr ⟨rfl, .inr ⟨rfl, rfl⟩⟩, rfl⟩
    · exact ⟨[], .inl ⟨rfl, rfl⟩, rfl⟩

lemma takeWhile_dropWhile (f : Char → Bool) (cs : List Char) :
    (cs.dropWhile f).takeWhile f = [] := by
  have h := List.head?_dropWhile_not f cs
  cases hd : cs.dropWhile f with
  | nil => rfl
  | cons c cs =>
    rw [hd] at h
    exact List.takeWhile_cons_of_neg (by simpa using h)

lemma dropWhile_of_takeWhile {f : Char → Bool} (h : rest.takeWhile f = []) :
    rest.dropWhile f = rest := by
  have := @List.takeWhile_append_dropWhile _ f rest
  rwa [h] at this

lemma lex_eq_some : lex cv cs = some (⟨neg, text⟩, rest) ↔ ∃ lead, Leads cv neg lead ∧
    cs = lead ++ (text ++ rest) ∧ text ≠ [] ∧ (∀ c ∈ text, cv.keeps c) ∧
      rest.takeWhile cv.keeps = [] := by
  constructor
  · intro h
    obtain ⟨⟨neg', d⟩, hd⟩ : ∃ x, cv.sign (cs.dropWhile isSpace) = x := ⟨_, rfl⟩
    obtain ⟨sg, hsg, hcs⟩ := sign_split hd
    simp only [lex, hd] at h
    split_ifs at h with ht
    cases h
    refine ⟨cs.takeWhile isSpace ++ sg, ⟨_, sg, rfl, ?_, hsg⟩, ?_, ht, ?_, ?_⟩
    · exact List.all_eq_true.mp List.all_takeWhile
    · rw [List.takeWhile_append_dropWhile, List.append_assoc, ← hcs,
        List.takeWhile_append_dropWhile]
    · exact List.all_eq_true.mp List.all_takeWhile
    · exact takeWhile_dropWhile _ _
  · rintro ⟨lead, ⟨sp, sg, rfl, hsp, hsg⟩, rfl, hne, hk, hr⟩
    have hsign :
        cv.sign ((sp ++ sg ++ (text ++ rest)).dropWhile isSpace) = (neg, text ++ rest) := by
      obtain ⟨c, t, rfl⟩ := List.exists_cons_of_ne_nil hne
      have hc := hk c List.mem_cons_self
      rw [List.append_assoc]
      rcases hsg with ⟨rfl, rfl⟩ | ⟨rfl, ⟨rfl, rfl⟩ | ⟨rfl, rfl⟩⟩
      · rw [List.nil_append, List.cons_append, dropWhile_blank hsp (keeps_not_space hc),
          sign_keeps hc]
      · exact congrArg _ (dropWhile_blank hsp rfl)
      · exact congrArg _ (dropWhile_blank hsp rfl)
    simp only [lex, hsign, List.takeWhile_append_of_pos hk, List.dropWhile_append_of_pos hk, hr,
      dropWhile_of_takeWhile hr, List.append_nil, hne, if_false]

def Reads (cvs : List Conv) (cs : List Char) (xs : List Lexeme) (rest : List Char) : Prop :=
  sscanf cvs cs = (xs, rest) ∧ xs.length = cvs.length

lemma reads_nil {xs : List Lexeme} : Reads [] cs xs rest ↔ xs = [] ∧ rest = cs := by
  constructor
  · rintro ⟨h, _⟩
    cases h
    exact ⟨rfl, rfl⟩
  · rintro ⟨rfl, rfl⟩
    exact ⟨rfl, rfl⟩

lemma reads_cons {xs : List Lexeme} : Reads (cv :: cvs) cs xs rest ↔
    ∃ x xs' cs', xs = x :: xs' ∧ lex cv cs = some (x, cs') ∧ Reads cvs cs' xs' rest := by
  constructor
  · rintro ⟨h, hl⟩
    simp only [sscanf] at h
    split at h
    next => cases h; cases hl
    next x cs' hx =>
      cases h
      exact ⟨x, _, cs', rfl, hx, rfl, Nat.succ.inj hl⟩
  · rintro ⟨x, xs', cs', rfl, hx, h, hl⟩
    refine ⟨?_, congrArg Nat.succ hl⟩
    simp only [sscanf, hx, h]

lemma lex_nil : lex cv [] = none := by cases cv <;> rfl

lemma lex_length (h : lex cv cs = some (⟨neg, text⟩, rest)) :
    text.length + rest.length ≤ cs.length := by
  obtain ⟨lead, _, rfl, _⟩ := lex_eq_some.mp h
  simp only [List.length_append]
  omega

lemma lex_extend (hp : p <+: r) (h : lex cv p = some (⟨neg, text⟩, rest)) :
    ∃ v rest', lex cv r = some (⟨neg, text ++ v⟩, rest') ∧
      r.length + rest.length = p.length + v.length + rest'.length ∧
      (rest ≠ [] → v = [] ∧ rest <+: rest') := by
  obtain ⟨lead, hlead, rfl, hne, hk, hr⟩ := lex_eq_some.mp h
  obtain ⟨t, rfl⟩ := hp
  cases rest with
  | nil =>
    refine ⟨t.takeWhile cv.keeps, t.dropWhile cv.keeps, lex_eq_some.mpr ⟨lead, hlead, ?_, ?_, ?_,
      takeWhile_dropWhile _ t⟩, ?_, fun hn => (hn rfl).elim⟩
    · rw [List.append_assoc text, List.takeWhile_append_dropWhile, List.append_nil,
        List.append_assoc]
    · exact fun hn => hne (List.append_eq_nil_iff.mp hn).1
    · exact List.forall_mem_append.mpr ⟨hk, List.all_eq_true.mp List.all_takeWhile⟩
    · have := congrArg List.length (@List.takeWhile_append_dropWhile _ cv.keeps t)
      simp only [List.length_append, List.length_nil] at this ⊢
      omega
  | cons c cs =>
    have hc : ¬ cv.keeps c := fun hc => by simp [List.takeWhile_cons_of_pos hc] at hr
    refine ⟨[], c :: cs ++ t, lex_eq_some.mpr ⟨lead, hlead, by simp, by simpa using hne,
      by simpa using hk, List.takeWhile_cons_of_neg hc⟩, ?_, fun _ => ⟨rfl, List.prefix_append _ t⟩⟩
    simp only [List.length_append, List.length_nil]
    omega

lemma lex_cut (h : lex cv r = some (⟨neg, text⟩, rest)) (hp : p <+: r) {k : ℕ}
    (hk : p.length + text.length + rest.length = r.length + k) (h0 : 0 < k) :
    lex cv p = some (⟨neg, text.take k⟩, rest.take (k - text.length)) := by
  obtain ⟨lead, hlead, rfl, hne, hkeep, hr⟩ := lex_eq_some.mp h
  have hpe : p = lead ++ (text.take k ++ rest.take (k - text.length)) := by
    simp only [List.length_append] at hk
    rw [List.prefix_iff_eq_take.mp hp, show p.length = lead.length + k by omega,
      List.take_length_add_append, List.take_append]
  rw [hpe]
  refine lex_eq_some.mpr ⟨lead, hlead, rfl, ?_, ?_, ?_⟩
  · simp [hne, h0.ne']
  · exact fun c hc => hkeep c (List.mem_of_mem_take hc)
  · cases rest with
    | nil => simp
    | cons c cs =>
      have hc : ¬ cv.keeps c := fun hc => by simp [List.takeWhile_cons_of_pos hc] at hr
      cases k - text.length with
      | zero => rfl
      | succ n => exact List.takeWhile_cons_of_neg hc

variable {xs : List Lexeme} {x : Lexeme}

lemma Reads.length_le (h : Reads cvs cs xs rest) : rest.length ≤ cs.length := by
  induction cvs generalizing cs xs with
  | nil => rw [(reads_nil.mp h).2]
  | cons cv cvs ih =>
    obtain ⟨x, xs', cs', _, hx, h⟩ := reads_cons.mp h
    have := lex_length hx
    have := ih h
    omega

lemma reads_concat : Reads (cvs ++ [cv]) cs (xs ++ [x]) rest ↔
    ∃ cs', Reads cvs cs xs cs' ∧ lex cv cs' = some (x, rest) := by
  induction cvs generalizing cs xs with
  | nil =>
    rw [List.nil_append, reads_cons]
    constructor
    · rintro ⟨y, ys, cs', he, hy, h⟩
      obtain ⟨rfl, rfl⟩ := reads_nil.mp h
      cases xs with
      | nil =>
        cases he
        exact ⟨cs, reads_nil.mpr ⟨rfl, rfl⟩, hy⟩
      | cons z zs => simp at he
    · rintro ⟨cs', h, hx⟩
      obtain ⟨rfl, rfl⟩ := reads_nil.mp h
      exact ⟨x, [], rest, rfl, hx, reads_nil.mpr ⟨rfl, rfl⟩⟩
  | cons cv' cvs ih =>
    rw [List.cons_append, reads_cons]
    constructor
    · rintro ⟨y, ys, cs', he, hy, h⟩
      cases xs with
      | nil =>
        cases he
        have := h.2
        simp at this
      | cons z zs =>
        cases he
        obtain ⟨cs'', h, hx⟩ := ih.mp h
        exact ⟨cs'', reads_cons.mpr ⟨y, zs, cs', rfl, hy, h⟩, hx⟩
    · rintro ⟨cs', h, hx⟩
      obtain ⟨y, ys, cs'', rfl, hy, h⟩ := reads_cons.mp h
      exact ⟨y, ys ++ [x], cs'', rfl, hy, ih.mpr ⟨cs', h, hx⟩⟩

lemma Reads.extend (h : Reads cvs p xs rest) (hp : p <+: r) (hr : rest ≠ []) :
    ∃ rest', Reads cvs r xs rest' ∧ rest <+: rest' ∧
      r.length + rest.length = p.length + rest'.length := by
  induction cvs generalizing p r xs with
  | nil =>
    obtain ⟨rfl, rfl⟩ := reads_nil.mp h
    exact ⟨r, reads_nil.mpr ⟨rfl, rfl⟩, hp, Nat.add_comm ..⟩
  | cons cv cvs ih =>
    obtain ⟨⟨neg, text⟩, xs', p', rfl, hx, h⟩ := reads_cons.mp h
    obtain ⟨v, r', hx', hlen, hv⟩ := lex_extend hp hx
    have hne : p' ≠ [] := by
      rintro rfl
      have := h.length_le
      exact hr (List.length_eq_zero_iff.mp (by simpa using this))
    obtain ⟨rfl, hpre⟩ := hv hne
    rw [List.append_nil] at hx'
    obtain ⟨rest', h', hpre', hlen'⟩ := ih h hpre
    refine ⟨rest', reads_cons.mpr ⟨_, xs', r', rfl, hx', h'⟩, hpre', ?_⟩
    simp only [List.length_nil] at hlen
    omega

lemma Reads.cut (h : Reads cvs r xs rest) (hp : p <+: r) (hl : r.length < p.length + rest.length) :
    ∃ rest', Reads cvs p xs rest' ∧ rest' <+: rest ∧
      p.length + rest.length = r.length + rest'.length := by
  induction cvs generalizing p r xs with
  | nil =>
    obtain ⟨rfl, rfl⟩ := reads_nil.mp h
    exact ⟨p, reads_nil.mpr ⟨rfl, rfl⟩, hp, Nat.add_comm ..⟩
  | cons cv cvs ih =>
    obtain ⟨⟨neg, text⟩, xs', r', rfl, hx, h⟩ := reads_cons.mp h
    have hle := h.length_le
    have hlen := lex_length hx
    have hpl := hp.length_le
    obtain ⟨k, hk⟩ : ∃ k, p.length + text.length + r'.length = r.length + k :=
      ⟨p.length + text.length + r'.length - r.length, by omega⟩
    have hx' := lex_cut hx hp hk (by omega)
    rw [List.take_of_length_le (by omega)] at hx'
    have hrl : (r'.take (k - text.length)).length = k - text.length := by
      rw [List.length_take]
      omega
    obtain ⟨rest', h', hpre, hlen'⟩ := ih h (List.take_prefix (k - text.length) r')
      (by rw [hrl]; omega)
    exact ⟨rest', reads_cons.mpr ⟨_, xs', _, rfl, hx', h'⟩, hpre, by omega⟩

theorem Reads.concat_extend {u : List Char} (h : Reads (cvs ++ [cv]) p (xs ++ [⟨neg, u⟩]) rest)
    (hp : p <+: r) : ∃ v rest', Reads (cvs ++ [cv]) r (xs ++ [⟨neg, u ++ v⟩]) rest' ∧
      r.length < p.length + (u ++ v).length + rest'.length := by
  obtain ⟨p', h, hx⟩ := reads_concat.mp h
  have hne : p' ≠ [] := by
    rintro rfl
    rw [lex_nil] at hx
    cases hx
  obtain ⟨r', h', hpre, hlen⟩ := h.extend hp hne
  obtain ⟨v, rest', hx', hlen', _⟩ := lex_extend hpre hx
  have hu := List.length_pos_iff.mpr (lex_eq_some.mp hx).choose_spec.2.2.1
  refine ⟨v, rest', reads_concat.mpr ⟨r', h', hx'⟩, ?_⟩
  rw [List.length_append]
  omega

theorem Reads.concat_cut (h : Reads (cvs ++ [cv]) r (xs ++ [⟨neg, text⟩]) rest) (hp : p <+: r)
    {k : ℕ} (hk : p.length + text.length + rest.length = r.length + k) (h0 : 0 < k) :
    ∃ rest', Reads (cvs ++ [cv]) p (xs ++ [⟨neg, text.take k⟩]) rest' := by
  obtain ⟨r', h, hx⟩ := reads_concat.mp h
  have hlen := lex_length hx
  obtain ⟨p', h', hpre, hlen'⟩ := h.cut hp (by omega)
  exact ⟨_, reads_concat.mpr ⟨p', h', lex_cut hx hpre (by omega) h0⟩⟩

end NetworkPing.Scan
