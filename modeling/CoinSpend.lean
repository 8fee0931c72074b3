import CoinSpend.Proofs.Field.Residue
import CoinSpend.Proofs.Transaction.Conservation
import CoinSpend.Proofs.Transaction.PayToScriptHash
import CoinSpend.Proofs.Transaction.Sign
import CoinSpend.Settings.Basic
import CoinSpend.Store.Basic
import CoinSpend.Wallet.Address
import CoinSpend.Wallet.KeyText
import CoinSpend.Proofs.Wire.Reads
import CoinSpend.Proofs.Curve.Points
import CoinSpend.Proofs.Curve.PublicKey
import CoinSpend.Proofs.Script.Forms
import CoinSpend.Proofs.Script.Reach
import CoinSpend.Proofs.Transaction.Forms
import CoinSpend.Proofs.Transaction.RedeemRule
import CoinSpend.Proofs.Script.Sequence
import CoinSpend.Proofs.Transaction.Independence
import CoinSpend.Proofs.Transaction.Multisig
import CoinSpend.Proofs.Store.Session
import CoinSpend.Proofs.Store.FileForm
import CoinSpend.Proofs.Store.Load
import CoinSpend.Proofs.Transaction.Served
import CoinSpend.Proofs.Store.Persistence
import CoinSpend.Proofs.Curve.Multiples
import CoinSpend.Proofs.Curve.Order
import CoinSpend.Proofs.Script.Multisig
import CoinSpend.Proofs.Script.Unlimited
import CoinSpend.Proofs.Script.Limits
import CoinSpend.Proofs.Ecdsa.Malleability
import CoinSpend.Proofs.Script.CheckMultisig
import CoinSpend.Proofs.Script.Shortest
import CoinSpend.Proofs.Transaction.Refusal
import CoinSpend.Proofs.Store.Surplus
import CoinSpend.Proofs.Script.PlainSpend
import CoinSpend.Proofs.Script.Halting
import CoinSpend.Proofs.Script.Number
import CoinSpend.Proofs.Transaction.Atomicity
import CoinSpend.Proofs.Ecdsa.DerForms
import CoinSpend.Proofs.Ecdsa.NonceStream
import CoinSpend.Proofs.Script.Arithmetic
import CoinSpend.Proofs.Script.Locktime
import CoinSpend.Proofs.Script.Locality
import CoinSpend.Proofs.Script.Shuffle
import CoinSpend.Proofs.Text.Base58
import CoinSpend.Proofs.Text.Base58Check
import CoinSpend.Proofs.Wallet.Texts
import CoinSpend.Proofs.Field.Exponent
import CoinSpend.Proofs.Store.Isolation
import CoinSpend.Proofs.Field.Laws
import CoinSpend.Proofs.Field.Unchecked
import CoinSpend.Proofs.Settings.Environment
import CoinSpend.Proofs.Curve.Closure
import CoinSpend.Proofs.Transaction.Place
