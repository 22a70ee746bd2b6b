import GasPool.Types

/-!
# `get_all_owned_sui_coins_above_balance_threshold`

`SuiClient::get_all_owned_sui_coins_above_balance_threshold` (`sui_client.rs:44-80`) pages
through a sponsor's coins: it asks `get_coins` for the page after `cursor`, keeps each coin
whose balance is at least the threshold, and follows `next_cursor` while `has_next_page`. The
fullnode is a function from cursors to pages (`get_coins` is retried until it answers).

The loop has no bound in the source; `fuel` bounds the number of pages here, and the result is
`none` when it runs out. `PagesFrom getCoins cursor pages` says that following the cursors from
`cursor` visits exactly `pages`, the last without a next page: the cursor chain is finite.
`getAllOwnedSuiCoinsAboveBalanceThreshold_eq`: over such a chain the loop stops after
`pages.length` pages and returns the kept coins of the concatenated pages, in page order.
-/

namespace GasPool

/-- A coin of a `get_coins` page: `coin.object_ref()` and `coin.balance`. -/
structure Coin where
  objectRef : ObjectRef
  balance : U64
deriving DecidableEq, Repr

/-- A page of `get_coins`: `data`, `next_cursor` and `has_next_page`. -/
structure Page (Cursor : Type) where
  data : List Coin
  nextCursor : Option Cursor
  hasNextPage : Bool
deriving DecidableEq, Repr

section

variable {Cursor : Type} (getCoins : Option Cursor → Page Cursor) (address : SuiAddress)
  (balanceThreshold : U64)

/-- The `for coin in page.data` loop (`sui_client.rs:64-72`). -/
def pushCoins (coins : List GasCoin) (data : List Coin) : List GasCoin :=
  data.foldl (fun coins coin =>
    if balanceThreshold ≤ coin.balance then
      coins ++ [{ owner := address, objectRef := coin.objectRef, balance := coin.balance }]
    else coins) coins

/-- The `loop` of `get_all_owned_sui_coins_above_balance_threshold` (`sui_client.rs:55-78`),
for `fuel` pages at most. -/
def ownedCoinsLoop : ℕ → Option Cursor → List GasCoin → Option (List GasCoin)
  | 0, _, _ => none
  | fuel + 1, cursor, coins =>
    let page := getCoins cursor
    let coins := pushCoins address balanceThreshold coins page.data
    if page.hasNextPage then ownedCoinsLoop fuel page.nextCursor coins else some coins

/-- `SuiClient::get_all_owned_sui_coins_above_balance_threshold` (`sui_client.rs:44-80`). -/
def getAllOwnedSuiCoinsAboveBalanceThreshold (fuel : ℕ) : Option (List GasCoin) :=
  ownedCoinsLoop getCoins address balanceThreshold fuel none []

/-- The sponsor's `GasCoin` for a page entry, when its balance meets the threshold. -/
def keptCoin (coin : Coin) : Option GasCoin :=
  if balanceThreshold ≤ coin.balance then
    some { owner := address, objectRef := coin.objectRef, balance := coin.balance }
  else none

/-- Following `next_cursor` from `cursor` while `has_next_page` visits exactly `pages`. -/
inductive PagesFrom : Option Cursor → List (Page Cursor) → Prop
  | last {cursor : Option Cursor} : (getCoins cursor).hasNextPage = false →
      PagesFrom cursor [getCoins cursor]
  | next {cursor : Option Cursor} {pages : List (Page Cursor)} :
      (getCoins cursor).hasNextPage = true → PagesFrom (getCoins cursor).nextCursor pages →
      PagesFrom cursor (getCoins cursor :: pages)

theorem pushCoins_eq (coins : List GasCoin) (data : List Coin) :
    pushCoins address balanceThreshold coins data =
      coins ++ data.filterMap (keptCoin address balanceThreshold) := by
  induction data generalizing coins with
  | nil => simp [pushCoins]
  | cons coin data ih =>
    unfold pushCoins at ih ⊢
    by_cases h : balanceThreshold ≤ coin.balance <;>
      simp [List.foldl_cons, h, ih, keptCoin, List.filterMap_cons]

/-- Over a finite cursor chain, enough fuel runs the loop to its end. -/
theorem ownedCoinsLoop_eq {cursor : Option Cursor} {pages : List (Page Cursor)}
    (h : PagesFrom getCoins cursor pages) (fuel : ℕ) (hfuel : pages.length ≤ fuel)
    (coins : List GasCoin) :
    ownedCoinsLoop getCoins address balanceThreshold fuel cursor coins =
      some (coins ++ (pages.flatMap Page.data).filterMap (keptCoin address balanceThreshold)) := by
  induction h generalizing fuel coins with
  | last hlast =>
    obtain ⟨fuel, rfl⟩ : ∃ f, fuel = f + 1 := ⟨fuel - 1, by simp at hfuel; omega⟩
    simp [ownedCoinsLoop, hlast, pushCoins_eq]
  | next hnext _ ih =>
    obtain ⟨fuel, rfl⟩ : ∃ f, fuel = f + 1 := ⟨fuel - 1, by simp at hfuel; omega⟩
    simp only [List.length_cons, Nat.add_le_add_iff_right] at hfuel
    simp [ownedCoinsLoop, hnext, pushCoins_eq, ih fuel hfuel, List.filterMap_append]

/-- Over a finite cursor chain from the first page, the listing stops after the last page and
returns, in page order, the sponsor's coin for every entry at or above the threshold. -/
theorem getAllOwnedSuiCoinsAboveBalanceThreshold_eq {pages : List (Page Cursor)}
    (h : PagesFrom getCoins none pages) (fuel : ℕ) (hfuel : pages.length ≤ fuel) :
    getAllOwnedSuiCoinsAboveBalanceThreshold getCoins address balanceThreshold fuel =
      some ((pages.flatMap Page.data).filterMap (keptCoin address balanceThreshold)) := by
  simpa using ownedCoinsLoop_eq getCoins address balanceThreshold h fuel hfuel []

end

/-- Two pages: a balance equal to the threshold is kept, a lower one is not. -/
def twoPages : Option ℕ → Page ℕ
  | none => ⟨[⟨(1, 1, 0), 5⟩, ⟨(2, 1, 0), 3⟩], some 7, true⟩
  | some 7 => ⟨[⟨(3, 1, 0), 9⟩], none, false⟩
  | some _ => ⟨[], none, false⟩

theorem getAllOwnedSuiCoinsAboveBalanceThreshold_twoPages :
    PagesFrom twoPages none [twoPages none, twoPages (some 7)] ∧
      [twoPages none, twoPages (some 7)].length ≤ 2 ∧
      getAllOwnedSuiCoinsAboveBalanceThreshold twoPages 4 5 2 =
        some (([twoPages none, twoPages (some 7)].flatMap Page.data).filterMap (keptCoin 4 5)) :=
  have h : PagesFrom twoPages none [twoPages none, twoPages (some 7)] := .next rfl (.last rfl)
  ⟨h, le_rfl, getAllOwnedSuiCoinsAboveBalanceThreshold_eq twoPages 4 5 h 2 le_rfl⟩

end GasPool
