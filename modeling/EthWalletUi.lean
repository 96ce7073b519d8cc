import EthWalletUi.Qt.Json
import EthWalletUi.Qt.Js
import EthWalletUi.Machine.Sys
import EthWalletUi.Machine.Feed
import EthWalletUi.Guard
import EthWalletUi.Lane
import EthWalletUi.Lapse
import EthWalletUi.Scope
import EthWalletUi.Nonce
import EthWalletUi.Place
import EthWalletUi.Resend
import EthWalletUi.Blocked
import EthWalletUi.Replaced
import EthWalletUi.Reorder
import EthWalletUi.Apply
import EthWalletUi.Chains
import EthWalletUi.Intent
import EthWalletUi.Review
import EthWalletUi.Carried
import EthWalletUi.Backend.State
import EthWalletUi.Backend.Core
import EthWalletUi.Backend.Send
import EthWalletUi.Backend.Step
import EthWalletUi.Backend.Publish
import EthWalletUi.Backend.Course
import EthWalletUi.Backend.Acts
import EthWalletUi.Backend.Turn
import EthWalletUi.Backend.Wired
import EthWalletUi.Backend.Attribution
import EthWalletUi.Owed
import EthWalletUi.Fees
import EthWalletUi.Spinner
import EthWalletUi.Queued
import EthWalletUi.Shown
import EthWalletUi.Quote
import EthWalletUi.Verdict
import EthWalletUi.TokenSort
import EthWalletUi.Roster
import EthWalletUi.Refresh
import EthWalletUi.View.Token
import EthWalletUi.Balances
import EthWalletUi.Listed
import EthWalletUi.Switch
import EthWalletUi.View.Recents
import EthWalletUi.View.Ordered
import EthWalletUi.View.Picker
import EthWalletUi.View.Activity
import EthWalletUi.View.Desk
import EthWalletUi.View.Sends
import EthWalletUi.UnderReview
import EthWalletUi.View.Stage
import EthWalletUi.View.Answered
import EthWalletUi.View.Run
import EthWalletUi.View.Own
import EthWalletUi.View.Cancelled
import EthWalletUi.Coding.Binary
import EthWalletUi.Coding.Grid
import EthWalletUi.Coding.Interleave
import EthWalletUi.Coding.ReedSolomon
import EthWalletUi.Coding.Word
import EthWalletUi.QrGen.Blocks
import EthWalletUi.QrGen.Choice
import EthWalletUi.QrGen.Codeword
import EthWalletUi.QrGen.Patterns
import EthWalletUi.QrGen.Read
