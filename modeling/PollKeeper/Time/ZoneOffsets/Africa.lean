import PollKeeper.Time.OffsetHistory

/-!
# Offsets of zones in Africa and Antarctica
-/

namespace PollKeeper.Time.ZoneOffsets

open OffsetHistory

def troll : OffsetHistory where
  first := 0
  changes :=
    alternating 7200 0
      [1111885200, 1130634000, 1143334800, 1162083600, 1174784400, 1193533200, 1206838800,
       1224982800, 1238288400, 1256432400, 1269738000, 1288486800, 1301187600, 1319936400,
       1332637200, 1351386000, 1364691600, 1382835600, 1396141200, 1414285200, 1427590800,
       1445734800, 1459040400, 1477789200, 1490490000, 1509238800, 1521939600, 1540688400,
       1553994000, 1572138000, 1585443600, 1603587600, 1616893200, 1635642000, 1648342800,
       1667091600, 1679792400, 1698541200, 1711846800, 1729990800, 1743296400, 1761440400,
       1774746000, 1792890000, 1806195600, 1824944400, 1837645200, 1856394000, 1869094800,
       1887843600, 1901149200, 1919293200, 1932598800, 1950742800, 1964048400, 1982797200,
       1995498000, 2014246800, 2026947600, 2045696400, 2058397200, 2077146000, 2090451600,
       2108595600, 2121901200, 2140045200, 2153350800, 2172099600, 2184800400, 2203549200,
       2216250000, 2234998800, 2248304400, 2266448400, 2279754000, 2297898000, 2311203600,
       2329347600, 2342653200, 2361402000, 2374102800, 2392851600, 2405552400, 2424301200,
       2437606800, 2455750800, 2469056400, 2487200400, 2500506000, 2519254800, 2531955600,
       2550704400, 2563405200, 2582154000, 2595459600, 2613603600, 2626909200, 2645053200,
       2658358800, 2676502800, 2689808400, 2708557200, 2721258000, 2740006800, 2752707600,
       2771456400, 2784762000, 2802906000, 2816211600, 2834355600, 2847661200, 2866410000,
       2879110800, 2897859600, 2910560400, 2929309200, 2942010000, 2960758800, 2974064400,
       2992208400, 3005514000, 3023658000, 3036963600, 3055712400, 3068413200, 3087162000,
       3099862800, 3118611600, 3131917200, 3150061200, 3163366800, 3181510800, 3194816400,
       3212960400, 3226266000, 3245014800, 3257715600, 3276464400, 3289165200, 3307914000,
       3321219600, 3339363600, 3352669200, 3370813200, 3384118800, 3402867600, 3415568400,
       3434317200, 3447018000, 3465766800, 3479072400, 3497216400, 3510522000, 3528666000,
       3541971600, 3560115600, 3573421200, 3592170000, 3604870800, 3623619600, 3636320400,
       3655069200, 3668374800, 3686518800, 3699824400, 3717968400, 3731274000, 3750022800,
       3762723600, 3781472400, 3794173200, 3812922000, 3825622800, 3844371600, 3857677200,
       3875821200, 3889126800, 3907270800, 3920576400, 3939325200, 3952026000, 3970774800,
       3983475600, 4002224400, 4015530000, 4033674000, 4046979600, 4065123600, 4078429200,
       4096573200]

def monrovia : OffsetHistory where
  first := -2588
  changes :=
    alternating (-2670) 0 [-1604359012, 63593070]

def casablanca : OffsetHistory where
  first := -1820
  changes :=
    alternating 0 3600
      [-1773012580, -956361600, -950490000, -942019200, -761187600, -617241600, -605149200,
       -81432000, -71110800, 141264000, 147222000, 199756800, 207702000, 231292800, 244249200,
       265507200, 271033200, 448243200, 504918000, 1212278400, 1220223600, 1243814400,
       1250809200, 1272758400, 1281222000, 1301788800, 1312066800, 1335664800, 1342749600,
       1345428000, 1348970400, 1367114400, 1373162400, 1376100000, 1382839200, 1396144800,
       1403920800, 1406944800, 1414288800, 1427594400, 1434247200, 1437271200, 1445738400,
       1459044000, 1465092000, 1468116000, 1477792800, 1490493600, 1495332000, 1498960800,
       1509242400, 1521943200, 1526176800, 1529200800, 1557021600, 1560045600, 1587261600,
       1590890400, 1618106400, 1621130400, 1648346400, 1651975200, 1679191200, 1682215200,
       1710036000, 1713060000, 1740276000, 1743904800, 1771120800, 1774144800, 1801965600,
       1804989600, 1832205600, 1835834400, 1863050400, 1866074400, 1893290400, 1896919200,
       1924135200, 1927159200, 1954980000, 1958004000, 1985220000, 1988848800, 2016064800,
       2019088800, 2046304800, 2049933600, 2077149600, 2080778400, 2107994400, 2111018400,
       2138234400, 2141863200, 2169079200, 2172103200, 2199924000, 2202948000, 2230164000,
       2233792800, 2261008800, 2264032800, 2291248800, 2294877600, 2322093600, 2325722400,
       2352938400, 2355962400, 2383178400, 2386807200, 2414023200, 2417047200, 2444868000,
       2447892000, 2475108000, 2478736800, 2505952800, 2508976800, 2536192800, 2539821600,
       2567037600, 2570666400, 2597882400, 2600906400, 2628122400, 2631751200, 2658967200,
       2661991200, 2689812000, 2692836000, 2720052000, 2723680800, 2750896800, 2753920800,
       2781136800, 2784765600, 2811981600, 2815610400, 2842826400, 2845850400, 2873066400,
       2876695200, 2903911200, 2906935200, 2934756000, 2937780000, 2964996000, 2968624800,
       2995840800, 2998864800, 3026080800, 3029709600, 3056925600, 3060554400, 3087770400,
       3090794400, 3118010400, 3121639200, 3148855200, 3151879200, 3179700000, 3182724000,
       3209940000, 3213568800, 3240784800, 3243808800, 3271024800, 3274653600, 3301869600,
       3305498400, 3332714400, 3335738400, 3362954400, 3366583200, 3393799200, 3396823200,
       3424644000, 3427668000, 3454884000, 3458512800, 3485728800, 3488752800, 3515968800,
       3519597600, 3546813600, 3549837600, 3577658400, 3580682400, 3607898400, 3611527200,
       3638743200, 3641767200, 3669588000, 3672612000, 3699828000, 3703456800]

end PollKeeper.Time.ZoneOffsets
