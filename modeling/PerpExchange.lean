import PerpExchange.Json.Kind
import PerpExchange.Market.Jit
import PerpExchange.Settings.Published
import PerpExchange.Venue.State
import PerpExchange.Proofs.Checked
import PerpExchange.Proofs.Number.Quotient
import PerpExchange.Proofs.Amm.Swap
import PerpExchange.Proofs.Amm.Quoting
import PerpExchange.Proofs.Amm.Repeg
import PerpExchange.Proofs.Trade.Fill
import PerpExchange.Proofs.Position.Perp
import PerpExchange.Proofs.Trade.Books
import PerpExchange.Proofs.Trade.Conservation
import PerpExchange.Proofs.Trade.RoundTrip
import PerpExchange.Proofs.Trade.Limit
import PerpExchange.Proofs.Trade.Soundness
import PerpExchange.Proofs.Market.Prices
import PerpExchange.Proofs.Market.Spot
import PerpExchange.Proofs.Margin.Account
import PerpExchange.Proofs.Position.Spot
import PerpExchange.Proofs.Position.Bank
import PerpExchange.Proofs.Liquidation.Outcome
import PerpExchange.Proofs.Liquidation.Takeover
import PerpExchange.Proofs.Liquidation.Shortage
import PerpExchange.Proofs.Token
import PerpExchange.Proofs.Liquidation.Settlement
import PerpExchange.Proofs.Liquidation.Eligibility
import PerpExchange.Proofs.Position.Accounting
import PerpExchange.Proofs.Margin.Strictness
import PerpExchange.Proofs.Margin.FaceValue
import PerpExchange.Proofs.Margin.Collateral
import PerpExchange.Proofs.Margin.Requirement
import PerpExchange.Proofs.Amm.Range
import PerpExchange.Proofs.Trade.OperatingRange
import PerpExchange.Proofs.Market.UserPnl
import PerpExchange.Proofs.Amm.QuoteSwap
import PerpExchange.Proofs.Liquidation.Run
import PerpExchange.Proofs.Liquidation.Ledger
import PerpExchange.Proofs.Liquidation.Status
import PerpExchange.Proofs.Amm.Spreads
import PerpExchange.Proofs.Amm.LimitSize
import PerpExchange.Proofs.Amm.Rebalance
import PerpExchange.Proofs.Liquidation.MadeWhole
import PerpExchange.Proofs.Oracle.Divergence
import PerpExchange.Proofs.Oracle.Validity
import PerpExchange.Proofs.Market.Jit
import PerpExchange.Proofs.Liquidation.Refusal
import PerpExchange.Proofs.Settings.Config
import PerpExchange.Proofs.Market.Snapshot
import PerpExchange.Proofs.Fees.Strategy
import PerpExchange.Proofs.Fees.DecayedMean
import PerpExchange.Proofs.Json.Documents
import PerpExchange.Proofs.Number.RootDescent
import PerpExchange.Proofs.Position.Adjunction
import PerpExchange.Proofs.Number.Exact
import PerpExchange.Proofs.Venue.Run
import PerpExchange.Proofs.Settings.Published
