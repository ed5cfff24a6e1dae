import Os161.Lib.Flow

/-! # The bar

`bar.c` and `bar_driver.c`. A program point is the next statement of a thread with the
local variables that are still read. -/
namespace Os161.Bar
open Os161.Lib

/-- `NCUSTOMERS`, `NBARTENDERS` and `NGLASSES`. -/
structure Sizes where
  ncustomers : Nat
  nbartenders : Nat
  nglasses : Nat

/-- `createbar` and the threads it forks. -/
inductive Thread (sz : Sizes) where
  | createbar
  | bartender (b : Fin sz.nbartenders)
  | customer (c : Fin sz.ncustomers)
  deriving DecidableEq

/-! ## Data -/

def nothing : Nat := 0
def kahlua : Nat := 9
def baileys : Nat := 10
def grandMarnier : Nat := 11

structure Glass where
  contents : Nat → Nat
  /-- 0 = empty, 1 = in use -/
  state : Nat
  ordernumber : Nat

/-- `glass` is an index into `glasses`. -/
structure Order where
  ing : Nat × Nat × Nat
  glass : Nat
  ordernumber : Nat
  /-- 0 = no order, 1 = given by customer, 2 = taken by bartender, 3 = given to customer -/
  state : Nat

/-- The global variables; `bottles` are the doses served. -/
structure Data where
  orders : Nat → Order
  glasses : Nat → Glass
  bottles : Nat → Nat
  ndrinkers : Int

inductive Lock where
  | orderslock | bottleslock | glassarraylock | ndrinkerslock
  deriving DecidableEq

inductive Sem where
  | emptyglasses
  | ordersready
  | ordercomplete (i : Nat)
  | alldone
  deriving DecidableEq

namespace Data

def setOrder (d : Data) (i : Nat) (o : Order) : Data :=
  { d with orders := Function.update d.orders i o }

def setGlass (d : Data) (g : Nat) (x : Glass) : Data :=
  { d with glasses := Function.update d.glasses g x }

/-- One ingredient of `pour`; `i` counts those poured so far. -/
def pourOne (g : Nat) (p : Data × Nat) (ing : Nat) : Data × Nat :=
  let (d, i) := p
  if ing ≠ nothing then
    ({ d.setGlass g
          { d.glasses g with contents := Function.update (d.glasses g).contents i ing } with
        bottles := Function.update d.bottles ing (d.bottles ing + 1) }, i + 1)
  else (d, i)

def pour (d : Data) (g : Nat) (ing : Nat × Nat × Nat) : Data :=
  (pourOne g (pourOne g (pourOne g (d, 0) ing.1) ing.2.1) ing.2.2).1

end Data

/-! ## Program points -/

/-- The calls of `submit_order`: the `i`th round of the loop in `customer`, and the `i`th
order of the last customer in `crawl_home`. -/
inductive Call where
  | drink (customernum i : Nat)
  | empty (i : Nat)
  deriving DecidableEq

def Call.ing : Call → Nat × Nat × Nat
  | .drink customernum _ =>
    if customernum % 2 = 1 then (kahlua, grandMarnier, baileys)
    else (baileys, grandMarnier, kahlua)
  | .empty _ => (nothing, nothing, nothing)

/-- What must not happen: `submit_order` runs off the orders, `take_order` panics,
`fill_order` is left without a glass. -/
inductive Fault where
  | noSlot (u : Call)
  | noOrder
  | noGlass
  deriving DecidableEq

inductive Pc where
  | submitLock (u : Call)
  | submitScan (u : Call) (i : Nat)
  | submitUnlock (u : Call) (i : Nat)
  | submitReady (u : Call) (i : Nat)
  | submitWait (u : Call) (i : Nat)
  | submitGlass (u : Call) (i : Nat)
  | submitNumber (u : Call) (i g : Nat)
  | servedLock (u : Call) (i g : Nat)
  | servedSet (u : Call) (i g : Nat)
  | servedUnlock (u : Call) (g : Nat)
  | drink (u : Call) (g : Nat)
  | returnLock (u : Call) (g : Nat)
  | returnEmpty (u : Call) (g : Nat)
  | returnNumber (u : Call) (g : Nat)
  | returnUnlock (u : Call) (i : Nat)
  | returnReady (u : Call) (i : Nat)
  | resetLock (u : Call) (i : Nat)
  | resetSet (u : Call) (i : Nat)
  | resetUnlock (u : Call)
  | crawlLock
  | crawlDec
  | crawlTest
  | crawlLoop (i : Nat)
  | crawlUnlock
  | drinkers
  | takeWait
  | takeLock
  | takeScan (i : Nat)
  | takeUnlock (o : Nat)
  | fillWait (o : Nat)
  | fillLock (o : Nat)
  | fillScan (o i : Nat)
  | fillUnlock (o g : Nat)
  | fillGlass (o g : Nat)
  | bottlesLock (o g : Nat)
  | pour (o g : Nat)
  | bottlesUnlock (o : Nat)
  | serve (o : Nat)
  | serveReady (i : Nat)
  | goHome
  | home
  | closing (i : Nat)
  | fault (f : Fault)
  deriving DecidableEq

/-- `while (i < 5)` of `customer`. -/
def rounds : Nat := 5

/-- Where `submit_order` returns the glass to. -/
def Call.served : Call → Nat → Pc
  | .drink c i, g => .drink (.drink c i) g
  | .empty i, g => .returnLock (.empty i) g

/-- Where `return_glass` returns to. -/
def Call.returned : Call → Pc
  | .drink c i => if i + 1 < rounds then .submitLock (.drink c (i + 1)) else .crawlLock
  | .empty i => .crawlLoop (i + 1)

/-! ## The code -/

def code (sz : Sizes) : Pc → Instr Lock Sem Data Pc
  -- submit_order
  | .submitLock u => .acquire .orderslock (.submitScan u 0)
  | .submitScan u i => .exec fun d =>
      if i < sz.ncustomers then
        if (d.orders i).state = 0 then
          (d.setOrder i { d.orders i with ing := u.ing, state := 1, ordernumber := i },
            .submitUnlock u i)
        else (d, .submitScan u (i + 1))
      else (d, .fault (.noSlot u))
  | .submitUnlock u i => .release .orderslock (.submitReady u i)
  | .submitReady u i => .v .ordersready (.submitWait u i)
  | .submitWait u i => .p (.ordercomplete i) (.submitGlass u i)
  | .submitGlass u i => .exec fun d => (d, .submitNumber u i (d.orders i).glass)
  | .submitNumber u i g => .exec fun d =>
      (d.setGlass g { d.glasses g with ordernumber := i }, .servedLock u i g)
  | .servedLock u i g => .acquire .orderslock (.servedSet u i g)
  | .servedSet u i g => .exec fun d =>
      (d.setOrder i { d.orders i with state := 3 }, .servedUnlock u g)
  | .servedUnlock u g => .release .orderslock (u.served g)
  -- the rest of the loop of customer
  | .drink u g => .exec fun d =>
      (d.setGlass g
          { d.glasses g with contents := fun j => if j < 3 then 0 else (d.glasses g).contents j },
        .returnLock u g)
  -- return_glass
  | .returnLock u g => .acquire .glassarraylock (.returnEmpty u g)
  | .returnEmpty u g => .exec fun d =>
      (d.setGlass g { d.glasses g with state := 0 }, .returnNumber u g)
  | .returnNumber u g => .exec fun d => (d, .returnUnlock u (d.glasses g).ordernumber)
  | .returnUnlock u i => .release .glassarraylock (.returnReady u i)
  | .returnReady u i => .v .emptyglasses (.resetLock u i)
  | .resetLock u i => .acquire .orderslock (.resetSet u i)
  | .resetSet u i => .exec fun d =>
      (d.setOrder i { d.orders i with state := 0 }, .resetUnlock u)
  | .resetUnlock u => .release .orderslock u.returned
  -- crawl_home
  | .crawlLock => .acquire .ndrinkerslock .crawlDec
  | .crawlDec => .exec fun d => ({ d with ndrinkers := d.ndrinkers - 1 }, .crawlTest)
  | .crawlTest => .exec fun d => (d, if d.ndrinkers = 0 then .crawlLoop 0 else .crawlUnlock)
  | .crawlLoop i => .exec fun d =>
      (d, if i < sz.nbartenders then .submitLock (.empty i) else .crawlUnlock)
  | .crawlUnlock => .release .ndrinkerslock .goHome
  -- the loop of bartender
  | .drinkers => .exec fun d => (d, if d.ndrinkers ≠ 0 then .takeWait else .goHome)
  -- take_order
  | .takeWait => .p .ordersready .takeLock
  | .takeLock => .acquire .orderslock (.takeScan 0)
  | .takeScan i => .exec fun d =>
      if i < sz.ncustomers then
        if (d.orders i).state = 1 then
          (d.setOrder i { d.orders i with state := 2 }, .takeUnlock i)
        else (d, .takeScan (i + 1))
      else (d, .fault .noOrder)
  | .takeUnlock o => .release .orderslock (.fillWait o)
  -- fill_order
  | .fillWait o => .p .emptyglasses (.fillLock o)
  | .fillLock o => .acquire .glassarraylock (.fillScan o 0)
  | .fillScan o i => .exec fun d =>
      if i < sz.nglasses then
        if (d.glasses i).state = 0 then
          (d.setGlass i { d.glasses i with state := 1 }, .fillUnlock o i)
        else (d, .fillScan o (i + 1))
      else (d, .fault .noGlass)
  | .fillUnlock o g => .release .glassarraylock (.fillGlass o g)
  | .fillGlass o g => .exec fun d =>
      (d.setOrder o { d.orders o with glass := g }, .bottlesLock o g)
  | .bottlesLock o g => .acquire .bottleslock (.pour o g)
  | .pour o g => .exec fun d => (d.pour g (d.orders o).ing, .bottlesUnlock o)
  | .bottlesUnlock o => .release .bottleslock (.serve o)
  -- serve_order
  | .serve o => .exec fun d => (d, .serveReady (d.orders o).ordernumber)
  | .serveReady i => .v (.ordercomplete i) .drinkers
  | .goHome => .v .alldone .home
  | .home => .exit
  -- createbar
  | .closing i =>
    if i < sz.ncustomers + sz.nbartenders then .p .alldone (.closing (i + 1)) else .exit
  | .fault _ => .crash

/-! ## Runs -/

abbrev State (sz : Sizes) := Config (Thread sz) Lock Sem Data Pc

/-- Where `createbar` and `thread_fork` start the threads. -/
def Thread.entry {sz : Sizes} : Thread sz → Pc
  | .createbar => .closing 0
  | .bartender _ => .drinkers
  | .customer c => .submitLock (.drink c 0)

/-- `bar_open` over what the variables held before. Beyond their bounds the arrays are
never read. -/
def barOpen (sz : Sizes) (d : Data) : State sz where
  pc := Thread.entry
  owner _ := none
  count
    | .emptyglasses => sz.nglasses
    | _ => 0
  data :=
    { d with
      ndrinkers := sz.ncustomers
      glasses := fun i => { d.glasses i with state := 0 }
      orders := fun i => { d.orders i with state := 0 } }

def Pc.Ended (sz : Sizes) (k : Pc) : Prop := code sz k = .exit

/-- Some thread has not finished and no thread can take a step. -/
def Stuck {sz : Sizes} (s : State sz) : Prop :=
  (∃ t, ¬ (s.pc t).Ended sz) ∧ ∀ t, s.step (code sz) t = none

end Os161.Bar
