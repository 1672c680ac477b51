import NetworkPing.Sequences
import NetworkPing.Wire.Stats

/-! pretty_yaml.py: `dumpv` and `dumps` on nestings of lists and dicts of simple values. The
result `none` stands for an exception. A tuple is a list, and a dict is the list of its items. -/

namespace NetworkPing.Yaml

/-- `str.isalnum` of one character, with what it is in ASCII. -/
structure Alnum where
  isAlnum : Char → Bool
  ascii : ∀ c : Char, c.val < 128 → isAlnum c = c.isAlphanum

def asciiAlnum : Alnum := ⟨Char.isAlphanum, fun _ _ => rfl⟩

/-- A float comes with its `str`, and `None` is called as it is printed. -/
inductive Simple
  | str (s : List Char)
  | bytes (bs : List UInt8)
  | int (n : ℤ)
  | float (x : Stats.PyFloat) (text : List Char)
  | bool (b : Bool)
  | null
  deriving DecidableEq

inductive Data
  | simple (v : Simple)
  | list (xs : List Data)
  | dict (items : List (Simple × Data))

structure Layout where
  tabSz : ℕ := 4
  minWidth : ℤ := 40

def hexDigits (b : UInt8) : List Char :=
  [Nat.digitChar (b.toNat / 16), Nat.digitChar (b.toNat % 16)]

def byteText (quote : Char) (b : UInt8) : List Char :=
  let c := Char.ofNat b.toNat
  if c = quote ∨ c = '\\' then ['\\', c]
  else if c = '\t' then ['\\', 't']
  else if c = '\n' then ['\\', 'n']
  else if c = '\r' then ['\\', 'r']
  else if 32 ≤ b ∧ b < 127 then [c]
  else '\\' :: 'x' :: hexDigits b

def bytesText (bs : List UInt8) : List Char :=
  let quote := if 39 ∈ bs ∧ 34 ∉ bs then '"' else '\''
  'b' :: quote :: bs.flatMap (byteText quote) ++ [quote]

variable (A : Alnum) (c : Layout)

def bare (s : List Char) : Bool :=
  let s := (s.filter (· ≠ '_')).filter (· ≠ '.')
  s ≠ [] && s.all A.isAlnum

def dumpsSimple : Simple → List Char
  | .str s => if bare A s then s else '"' :: s ++ ['"']
  | .bool true => "true".toList
  | .bool false => "false".toList
  | .null => "null".toList
  | .bytes bs => bytesText bs
  | .int n => signed n
  | .float _ text => text

def Data.asSimple : Data → Option Simple
  | .simple v => some v
  | _ => none

def Data.isDict : Data → Bool
  | .dict _ => true
  | _ => false

/-- `isinstance(val, (int, float))`, which holds of the booleans too. -/
def Simple.isNum : Simple → Bool
  | .int _ | .float _ _ | .bool _ => true
  | _ => false

def join (sep : List Char) (texts : List (List Char)) : List Char := sep.intercalate texts

def listText (vals : List Simple) : List Char :=
  let sep := if vals.all Simple.isNum then [',', ' '] else [',']
  '[' :: join sep (vals.map (dumpsSimple A)) ++ [']']

def itemText (item : Simple × Simple) : List Char :=
  dumpsSimple A item.1 ++ [':', ' '] ++ dumpsSimple A item.2

def dictText (items : List (Simple × Simple)) : List Char :=
  '{' :: join [',', ' '] (items.map (itemText A)) ++ ['}']

def Simple.num : Simple → Option Stats.PyFloat
  | .int n => some (.finite n)
  | .float x _ => some x
  | .bool b => some (.finite (if b then 1 else 0))
  | _ => none

def numLt : Stats.PyFloat → Stats.PyFloat → Bool
  | .nan, _ | _, .nan => false
  | .finite q, .finite r => q < r
  | .inf neg, .inf neg' => neg && !neg'
  | .inf neg, .finite _ => neg
  | .finite _, .inf neg => !neg

def Simple.lt (v w : Simple) : Option Bool :=
  match v, w with
  | .str s, .str t => some (s < t)
  | .bytes bs, .bytes cs => some (bs < cs)
  | v, w => match v.num, w.num with
    | some x, some y => some (numLt x y)
    | _, _ => none

def Simple.Comparable (v w : Simple) : Prop := (v.lt w).isSome

instance : DecidableRel Simple.Comparable := fun v w =>
  inferInstanceAs (Decidable ((v.lt w).isSome = true))

/-- The keys of a dict are different, so its items are sorted by them alone, and every way of
sorting compares keys of different kinds where there are any. -/
def sorted (items : List (Simple × Simple)) : Option (List (Simple × Simple)) :=
  if (items.map Prod.fst).Pairwise Simple.Comparable then
    some (items.insertionSort fun e f => f.1.lt e.1 ≠ some true)
  else none

def simples (xs : List Data) : Option (List Simple) := xs.mapM Data.asSimple

def simpleItems (items : List (Simple × Data)) : Option (List (Simple × Simple)) :=
  items.mapM fun e => e.2.asSimple.map fun v => (e.1, v)

def fitting (width : ℤ) (line : List Char) : Option (List Char) :=
  if (line.length : ℤ) ≤ width then some line else none

def oneLineList (width : ℤ) (xs : List Data) : Option (List Char) :=
  (simples xs).bind fun vals => fitting width (listText A vals)

def oneLineDict (width : ℤ) (items : List (Simple × Data)) : Option (Option (List Char)) :=
  match simpleItems items with
  | some items => (sorted items).map fun items => fitting width (dictText A items)
  | none => some none

def Layout.tab (c : Layout) : List Char := List.replicate c.tabSz ' '

def Layout.pref (c : Layout) : List Char := '-' :: List.replicate (c.tabSz - 1) ' '

def elementLines : List (List Char) → Option (List (List Char))
  | [] => none
  | first :: rest => some ((c.pref ++ first) :: rest.map (c.tab ++ ·))

def keyLines (width : ℤ) (item : Simple × Data) (valRes : List (List Char)) : List (List Char) :=
  let keyStr := dumpsSimple A item.1 ++ [':', ' ']
  match valRes with
  | [line] =>
    if ((keyStr ++ line).length : ℤ) < width ∧ ¬ item.2.isDict ∧ ¬ ['-'] <+: Stats.strip line then
      [keyStr ++ line]
    else [keyStr, c.tab ++ line]
  | valRes => keyStr :: valRes.map (c.tab ++ ·)

mutual

def dumpv (width : ℤ) : Data → Option (List (List Char))
  | .simple v => some [dumpsSimple A v]
  | .list xs =>
    let width := max width c.minWidth
    match oneLineList A width xs with
    | some line => some [line]
    | none =>
      (dumpElements (width - c.tabSz) xs).bind fun res =>
        (res.mapM (elementLines c)).map List.flatten
  | .dict items =>
    let width := max width c.minWidth
    if items = [] then some [['{', '}']]
    else (oneLineDict A width items).bind fun line =>
      match line with
      | some line => some [line]
      | none => (dumpValues (width - c.tabSz) items).map fun res =>
        (List.zipWith (keyLines A c width) items res).flatten

def dumpElements (width : ℤ) : List Data → Option (List (List (List Char)))
  | [] => some []
  | x :: xs => (dumpv width x).bind fun lines => (dumpElements width xs).map (lines :: ·)

def dumpValues (width : ℤ) : List (Simple × Data) → Option (List (List (List Char)))
  | [] => some []
  | (_, x) :: items => (dumpv width x).bind fun lines => (dumpValues width items).map (lines :: ·)

end

def dumps (width : ℤ) (data : Data) : Option (List Char) :=
  (dumpv A c width data).map (join ['\n'])

variable {A c} {width : ℤ} {xs : List Data} {items : List (Simple × Data)}
  {pairs : List (Simple × Simple)} {vals : List Simple}

theorem Data.induct {P : Data → Prop} (simple : ∀ v, P (.simple v))
    (list : ∀ xs, (∀ x ∈ xs, P x) → P (.list xs))
    (dict : ∀ items, (∀ e ∈ items, P e.2) → P (.dict items)) (data : Data) : P data :=
  @Data.rec P (fun xs => ∀ x ∈ xs, P x) (fun items => ∀ e ∈ items, P e.2) (fun e => P e.2)
    simple list dict (List.forall_mem_nil _) (fun _ _ h hs => List.forall_mem_cons.mpr ⟨h, hs⟩)
    (List.forall_mem_nil _) (fun _ _ h hs => List.forall_mem_cons.mpr ⟨h, hs⟩) (fun _ _ h => h) data

lemma dumpElements_eq : dumpElements A c width xs = xs.mapM (dumpv A c width) := by
  induction xs with
  | nil => rfl
  | cons x xs ih => rw [dumpElements, mapM_cons_eq_bind, ih]

lemma dumpValues_eq : dumpValues A c width items = items.mapM fun e => dumpv A c width e.2 := by
  induction items with
  | nil => rfl
  | cons e items ih => rw [dumpValues, mapM_cons_eq_bind, ih]

lemma Data.asSimple_eq_some {data : Data} {v : Simple} :
    data.asSimple = some v ↔ data = .simple v := by
  cases data <;> simp [Data.asSimple]

lemma simples_eq_some : simples xs = some vals ↔ xs = vals.map .simple := by
  rw [simples, mapM_eq_some]
  induction xs generalizing vals with
  | nil => cases vals <;> simp
  | cons x xs ih =>
    cases vals with
    | nil => simp
    | cons v vals =>
      rw [List.forall₂_cons, ih, Data.asSimple_eq_some, List.map_cons, List.cons_eq_cons]

lemma simpleItems_eq_some :
    simpleItems items = some pairs ↔ items = pairs.map fun e => (e.1, .simple e.2) := by
  rw [simpleItems, mapM_eq_some]
  induction items generalizing pairs with
  | nil => cases pairs <;> simp
  | cons e items ih =>
    cases pairs with
    | nil => simp
    | cons f pairs =>
      rw [List.forall₂_cons, ih, List.map_cons, List.cons_eq_cons]
      simp only [Option.map_eq_some_iff, Data.asSimple_eq_some, Prod.ext_iff]
      constructor
      · rintro ⟨⟨v, hv, hk, rfl⟩, hs⟩
        exact ⟨⟨hk, hv⟩, hs⟩
      · rintro ⟨⟨hk, hv⟩, hs⟩
        exact ⟨⟨f.2, hv, hk, rfl⟩, hs⟩

end NetworkPing.Yaml
